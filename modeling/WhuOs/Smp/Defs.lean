import WhuOs.Library.TransitionSystem
import WhuOs.Process.Defs

/-!
# Interleavings of processes and schedulers

The functions of `proc.c` cut at their lock operations and at their accesses to
shared fields without a lock.  A CPU runs either its scheduler or a process; a
thread is where one of them stands in the code, with the local variables it
still needs.  The loops over the process table are lists of the slots that are
still ahead.

Interrupts are off while a process is in the kernel, so a process is not
preempted there, and the handler of the disk interrupt runs on top of a process
in user mode or of a scheduler between two rounds.
-/

namespace WhuOs
namespace Smp

open Library
open Process (Channel ProcState procZero)

/-- What a process waits for: a condition, its channel and the lock that
protects it. -/
structure Event where
  chan : Channel
  lock : UInt64
  deriving DecidableEq

/-- Where a call of `proc_wakeup` returns to. -/
inductive AfterWake
  | caller
  | reparent (rest : List Pid)
  | exit
  | signal (event : Event)
  deriving DecidableEq

/-- Where a call of `proc_sleep` returns to. -/
inductive AfterSleep
  | caller
  | wait
  | await (event : Event)
  deriving DecidableEq

/-- Where a thread stands.  The names say what it does next. -/
inductive Control
  /-- A process outside the functions below, or a scheduler between two
  rounds. -/
  | idle
  | forkScan (rest : List Pid)
  | forkSkip (slot : Pid) (rest : List Pid)
  | forkAlloc (slot : Pid)
  | forkParent (slot : Pid)
  | forkRetake (slot : Pid)
  | forkDone (slot : Pid)
  | exitReparent (rest : List Pid)
  | exitLock
  | exited
  | wake (chan : Option Channel) (rest : List Pid) (next : AfterWake)
  | wakeHeld (chan : Option Channel) (slot : Pid) (rest : List Pid)
      (next : AfterWake)
  | waitScan (rest : List Pid) (haveKids : Bool)
  | waitLock (slot : Pid) (rest : List Pid)
  | waitHeld (slot : Pid) (rest : List Pid)
  | waitReaped (slot : Pid)
  | sleepLock (chan : Option Channel) (next : AfterSleep)
  | sleepWoken (next : AfterSleep)
  | yieldLock
  /-- The end of `proc_yield`, and `fork_return`. -/
  | resume
  | awaitLock (event : Event) (request : Bool)
  | awaitTest (event : Event)
  | signalLock (event : Event)
  | signalUnlock (event : Event)
  | scan (rest : List Pid)
  | scanHeld (slot : Pid) (rest : List Pid)
  | back (slot : Pid)
  deriving DecidableEq

/-- All slots, in the order of the table. -/
def allSlots : List Pid := List.finRange nProc

/-- The point a call of `proc_wakeup` returns to. -/
def AfterWake.control : AfterWake → Control
  | .caller => .idle
  | .reparent rest => .exitReparent rest
  | .exit => .exitLock
  | .signal event => .signalUnlock event

/-- The point a call of `proc_sleep` returns to. -/
def AfterSleep.control : AfterSleep → Control
  | .caller => .idle
  | .wait => .waitScan allSlots false
  | .await event => .awaitLock event false

/-- The calls of a thread. -/
inductive Call
  | fork
  | exit
  | wait
  | yield
  | sleep (chan : Option Channel)
  | wakeup (chan : Option Channel)
  /-- Take the lock of an event, make its condition false if this is a new
  request, and sleep until the condition is true. -/
  | await (event : Event) (request : Bool)
  /-- Take the lock of an event, make its condition true and wake up who sleeps
  on its channel. -/
  | signal (event : Event)
  deriving DecidableEq

/-- The first point of a call. -/
def Call.entry : Call → Control
  | .fork => .forkScan allSlots
  | .exit => .exitReparent allSlots
  | .wait => .waitScan allSlots false
  | .yield => .yieldLock
  | .sleep chan => .sleepLock chan .caller
  | .wakeup chan => .wake chan allSlots .caller
  | .await event request => .awaitLock event request
  | .signal event => .signalLock event

/-! ## Shared memory -/

/-- The fields of `proc_t` that other threads look at. -/
structure Slot where
  state : ProcState
  parent : Option Pid
  sleepSpace : Option Channel

/-- The process table and the conditions processes wait for. -/
structure Shared where
  procs : Pid → Slot
  conds : Event → Bool

namespace Shared

/-- Change one slot. -/
def setSlot (shared : Shared) (slot : Pid) (value : Slot) : Shared :=
  ⟨Function.update shared.procs slot value, shared.conds⟩

/-- Change the state of a slot. -/
def setState (shared : Shared) (slot : Pid) (state : ProcState) : Shared :=
  shared.setSlot slot
    ⟨state, (shared.procs slot).parent, (shared.procs slot).sleepSpace⟩

/-- Change the parent of a slot. -/
def setParent (shared : Shared) (slot : Pid) (parent : Option Pid) : Shared :=
  shared.setSlot slot
    ⟨(shared.procs slot).state, parent, (shared.procs slot).sleepSpace⟩

/-- Put a slot to sleep. -/
def sleep (shared : Shared) (slot : Pid) (chan : Option Channel) : Shared :=
  shared.setSlot slot ⟨.sleeping, (shared.procs slot).parent, chan⟩

/-- Clear what a slot sleeps on. -/
def clearSleepSpace (shared : Shared) (slot : Pid) : Shared :=
  shared.setSlot slot
    ⟨(shared.procs slot).state, (shared.procs slot).parent, none⟩

/-- `proc_free`. -/
def free (shared : Shared) (slot : Pid) : Shared :=
  shared.setSlot slot ⟨.unused, none, none⟩

/-- The test and the store of `proc_wakeup` for one slot. -/
def wakeSlot (shared : Shared) (slot : Pid) (chan : Option Channel) : Shared :=
  if (shared.procs slot).state = .sleeping ∧
      (shared.procs slot).sleepSpace = chan then
    shared.setState slot .runnable
  else shared

/-- Make the condition of an event true or false. -/
def setCond (shared : Shared) (event : Event) (value : Bool) : Shared :=
  ⟨shared.procs, Function.update shared.conds event value⟩

/-- Make the condition of an event false if this is a new request. -/
def startRequest (shared : Shared) (event : Event) (request : Bool) : Shared :=
  if request then shared.setCond event false else shared

end Shared

/-! ## Steps of one thread -/

/-- The locks: one of each slot, and others by their addresses. -/
inductive Lock
  | proc (slot : Pid)
  | other (address : UInt64)
  deriving DecidableEq

/-- What a step does with a lock. -/
inductive LockOp
  | none
  | acquire (lock : Lock)
  | release (lock : Lock)

/-- The steps of a thread that leave it on its CPU.  `me` is `myproc()`. -/
inductive Act (me : Option Pid) (shared : Shared) :
    Control → LockOp → Shared → Control → Prop
  | forkFull : Act me shared (.forkScan []) .none shared .idle
  | forkSkip {slot : Pid} {rest : List Pid} :
      (shared.procs slot).state ≠ .unused →
      Act me shared (.forkScan (slot :: rest)) (.acquire (.proc slot)) shared
        (.forkSkip slot rest)
  | forkNext {slot : Pid} {rest : List Pid} :
      Act me shared (.forkSkip slot rest) (.release (.proc slot)) shared
        (.forkScan rest)
  | forkTake {slot : Pid} {rest : List Pid} :
      (shared.procs slot).state = .unused →
      Act me shared (.forkScan (slot :: rest)) (.acquire (.proc slot))
        (shared.setState slot .runnable) (.forkAlloc slot)
  /-- `proc_alloc` finds no memory. -/
  | forkFail {slot : Pid} :
      Act me shared (.forkAlloc slot) (.release (.proc slot))
        (shared.free slot) .idle
  | forkParent {slot curr : Pid} :
      me = some curr →
      Act me shared (.forkParent slot) .none
        (shared.setParent slot (some curr)) (.forkRetake slot)
  | forkRetake {slot : Pid} :
      Act me shared (.forkRetake slot) (.acquire (.proc slot))
        (shared.setState slot .runnable) (.forkDone slot)
  | forkDone {slot : Pid} :
      Act me shared (.forkDone slot) (.release (.proc slot)) shared .idle
  | exitHand {slot curr : Pid} {rest : List Pid} :
      me = some curr → (shared.procs slot).parent = some curr →
      Act me shared (.exitReparent (slot :: rest)) .none
        (shared.setParent slot (some procZero))
        (.wake (some (.proc procZero)) allSlots (.reparent rest))
  | exitKeep {slot curr : Pid} {rest : List Pid} :
      me = some curr → (shared.procs slot).parent ≠ some curr →
      Act me shared (.exitReparent (slot :: rest)) .none shared
        (.exitReparent rest)
  | exitWake {curr : Pid} :
      me = some curr →
      Act me shared (.exitReparent []) .none shared
        (.wake ((shared.procs curr).parent.map .proc) allSlots .exit)
  | wakeSelf {chan : Option Channel} {slot : Pid} {rest : List Pid}
      {next : AfterWake} :
      me = some slot →
      Act me shared (.wake chan (slot :: rest) next) .none shared
        (.wake chan rest next)
  | wakeTake {chan : Option Channel} {slot : Pid} {rest : List Pid}
      {next : AfterWake} :
      me ≠ some slot →
      Act me shared (.wake chan (slot :: rest) next) (.acquire (.proc slot))
        (shared.wakeSlot slot chan) (.wakeHeld chan slot rest next)
  | wakeNext {chan : Option Channel} {slot : Pid} {rest : List Pid}
      {next : AfterWake} :
      Act me shared (.wakeHeld chan slot rest next) (.release (.proc slot))
        shared (.wake chan rest next)
  | wakeDone {chan : Option Channel} {next : AfterWake} :
      Act me shared (.wake chan [] next) .none shared next.control
  | waitSkip {slot curr : Pid} {rest : List Pid} {haveKids : Bool} :
      me = some curr → (shared.procs slot).parent ≠ some curr →
      Act me shared (.waitScan (slot :: rest) haveKids) .none shared
        (.waitScan rest haveKids)
  | waitChild {slot curr : Pid} {rest : List Pid} {haveKids : Bool} :
      me = some curr → (shared.procs slot).parent = some curr →
      Act me shared (.waitScan (slot :: rest) haveKids) .none shared
        (.waitLock slot rest)
  | waitReap {slot : Pid} {rest : List Pid} :
      (shared.procs slot).state = .zombie →
      Act me shared (.waitLock slot rest) (.acquire (.proc slot))
        (shared.free slot) (.waitReaped slot)
  | waitReaped {slot : Pid} :
      Act me shared (.waitReaped slot) (.release (.proc slot)) shared .idle
  | waitAlive {slot : Pid} {rest : List Pid} :
      (shared.procs slot).state ≠ .zombie →
      Act me shared (.waitLock slot rest) (.acquire (.proc slot)) shared
        (.waitHeld slot rest)
  | waitNext {slot : Pid} {rest : List Pid} :
      Act me shared (.waitHeld slot rest) (.release (.proc slot)) shared
        (.waitScan rest true)
  | waitNone : Act me shared (.waitScan [] false) .none shared .idle
  | waitSleep {curr : Pid} :
      me = some curr →
      Act me shared (.waitScan [] true) .none shared
        (.sleepLock (some (.proc curr)) .wait)
  | woken {curr : Pid} {next : AfterSleep} :
      me = some curr →
      Act me shared (.sleepWoken next) (.release (.proc curr))
        (shared.clearSleepSpace curr) next.control
  | resume {curr : Pid} :
      me = some curr →
      Act me shared .resume (.release (.proc curr)) shared .idle
  | awaitTake {event : Event} {request : Bool} :
      Act me shared (.awaitLock event request) (.acquire (.other event.lock))
        (shared.startRequest event request) (.awaitTest event)
  | awaitTrue {event : Event} :
      shared.conds event = true →
      Act me shared (.awaitTest event) (.release (.other event.lock)) shared
        .idle
  | awaitFalse {event : Event} :
      shared.conds event = false →
      Act me shared (.awaitTest event) (.release (.other event.lock)) shared
        (.sleepLock (some event.chan) (.await event))
  | signalTake {event : Event} :
      Act me shared (.signalLock event) (.acquire (.other event.lock))
        (shared.setCond event true)
        (.wake (some event.chan) allSlots (.signal event))
  | signalDone {event : Event} :
      Act me shared (.signalUnlock event) (.release (.other event.lock)) shared
        .idle
  | schedSkip {slot : Pid} {rest : List Pid} :
      (shared.procs slot).state ≠ .runnable →
      Act me shared (.scan (slot :: rest)) (.acquire (.proc slot)) shared
        (.scanHeld slot rest)
  | schedNext {slot : Pid} {rest : List Pid} :
      Act me shared (.scanHeld slot rest) (.release (.proc slot)) shared
        (.scan rest)
  | schedNone : Act me shared (.scan []) .none shared .idle
  | schedBack {slot : Pid} :
      Act me shared (.back slot) (.release (.proc slot)) shared .idle

/-- The calls of `proc_sched`: a process has taken its lock, changed its state
and goes on behind the call when it is scheduled again. -/
inductive Park (curr : Pid) (shared : Shared) :
    Control → Shared → Control → Prop
  | yield : Park curr shared .yieldLock (shared.setState curr .runnable) .resume
  | sleep {chan : Option Channel} {next : AfterSleep} :
      Park curr shared (.sleepLock chan next) (shared.sleep curr chan)
        (.sleepWoken next)
  | exit : Park curr shared .exitLock (shared.setState curr .zombie) .exited

/-! ## The machine -/

section Machine

variable {Cpu : Type} [DecidableEq Cpu]

/-- A process in the kernel, or the scheduler of a CPU. -/
inductive Thread (Cpu : Type)
  | proc (slot : Pid)
  | sched (cpu : Cpu)
  deriving DecidableEq

/-- A machine with any number of CPUs. -/
structure State (Cpu : Type) where
  shared : Shared
  locks : Lock → Option Cpu
  /-- The process a CPU runs, if it does not run its scheduler. -/
  current : Cpu → Option Pid
  control : Thread Cpu → Control
  /-- The slot that was scheduled last.  The value -1 of the source stands for
  the last slot, with which the search starts at the same place. -/
  lastScheduled : Pid

/-- The thread a CPU runs. -/
def State.thread (state : State Cpu) (cpu : Cpu) : Thread Cpu :=
  match state.current cpu with
  | some slot => .proc slot
  | none => .sched cpu

/-- Where a CPU stands. -/
def State.at (state : State Cpu) (cpu : Cpu) : Control :=
  state.control (state.thread cpu)

/-- A lock is free when it is taken and held when it is released. -/
def LockOp.Enabled (locks : Lock → Option Cpu) (cpu : Cpu) : LockOp → Prop
  | .none => True
  | .acquire lock => locks lock = Option.none
  | .release lock => locks lock = some cpu

/-- The locks after a lock operation. -/
def LockOp.apply (locks : Lock → Option Cpu) (cpu : Cpu) :
    LockOp → Lock → Option Cpu
  | .none => locks
  | .acquire lock => Function.update locks lock (some cpu)
  | .release lock => Function.update locks lock Option.none

/-- The order in which a round of the scheduler looks at the slots. -/
def roundFrom (lastScheduled : Pid) : List Pid :=
  allSlots.map fun slot => lastScheduled + 1 + slot

/-- One step of a CPU, in a machine whose processes make some calls only. -/
inductive Step (allowed : Call → Prop) :
    State Cpu → Cpu → State Cpu → Prop
  | call {state : State Cpu} {cpu : Cpu} {curr : Pid} {call : Call} :
      state.current cpu = some curr →
      state.control (.proc curr) = .idle →
      allowed call →
      -- the first process must not exit
      (call = .exit → curr ≠ procZero) →
      Step allowed state cpu
        ⟨state.shared, state.locks, state.current,
          Function.update state.control (.proc curr) call.entry,
          state.lastScheduled⟩
  | interrupt {state : State Cpu} {cpu : Cpu} {event : Event} :
      state.current cpu = none →
      state.control (.sched cpu) = .idle →
      allowed (.signal event) →
      Step allowed state cpu
        ⟨state.shared, state.locks, state.current,
          Function.update state.control (.sched cpu) (.signalLock event),
          state.lastScheduled⟩
  | round {state : State Cpu} {cpu : Cpu} :
      state.current cpu = none →
      state.control (.sched cpu) = .idle →
      Step allowed state cpu
        ⟨state.shared, state.locks, state.current,
          Function.update state.control (.sched cpu)
            (.scan (roundFrom state.lastScheduled)),
          state.lastScheduled⟩
  | act {state : State Cpu} {cpu : Cpu} {op : LockOp} {shared : Shared}
      {next : Control} :
      Act (state.current cpu) state.shared (state.at cpu) op shared next →
      op.Enabled state.locks cpu →
      Step allowed state cpu
        ⟨shared, op.apply state.locks cpu, state.current,
          Function.update state.control (state.thread cpu) next,
          state.lastScheduled⟩
  /-- `proc_fork` has copied the process and releases the lock of the child. -/
  | spawn {state : State Cpu} {cpu : Cpu} {slot : Pid} :
      state.at cpu = .forkAlloc slot →
      state.locks (.proc slot) = some cpu →
      Step allowed state cpu
        ⟨state.shared, Function.update state.locks (.proc slot) none,
          state.current,
          Function.update
            (Function.update state.control (state.thread cpu)
              (.forkParent slot)) (.proc slot) .resume,
          state.lastScheduled⟩
  | park {state : State Cpu} {cpu : Cpu} {curr : Pid} {shared : Shared}
      {next : Control} :
      state.current cpu = some curr →
      Park curr state.shared (state.control (.proc curr)) shared next →
      state.locks (.proc curr) = none →
      Step allowed state cpu
        ⟨shared, Function.update state.locks (.proc curr) (some cpu),
          Function.update state.current cpu none,
          Function.update
            (Function.update state.control (.proc curr) next) (.sched cpu)
            (.back curr),
          state.lastScheduled⟩
  | pick {state : State Cpu} {cpu : Cpu} {slot : Pid} {rest : List Pid} :
      state.current cpu = none →
      state.control (.sched cpu) = .scan (slot :: rest) →
      state.locks (.proc slot) = none →
      (state.shared.procs slot).state = .runnable →
      Step allowed state cpu
        ⟨state.shared.setState slot .running,
          Function.update state.locks (.proc slot) (some cpu),
          Function.update state.current cpu (some slot), state.control, slot⟩

/-- Every CPU runs its scheduler, and the processes there are have not been
scheduled yet. -/
structure Booted (state : State Cpu) : Prop where
  locks : ∀ lock, state.locks lock = none
  current : ∀ cpu, state.current cpu = none
  sched : ∀ cpu, state.control (.sched cpu) = .idle
  proc : ∀ slot, state.control (.proc slot) = .resume
  fresh : ∀ slot, (state.shared.procs slot).state = .unused ∨
    (state.shared.procs slot).state = .runnable
  lastScheduled : state.lastScheduled = 63

/-- The machine, with the calls its processes make. -/
def machine (Cpu : Type) [DecidableEq Cpu] (allowed : Call → Prop) :
    TransitionSystem (State Cpu) Cpu where
  Init := Booted
  Step := Step allowed

end Machine

end Smp
end WhuOs
