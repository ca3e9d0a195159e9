import WhuOs.Smp.Wakeup

/-!
# Waiting for children

`proc_exit` wakes the parent before the child becomes a zombie, and `proc_wait`
goes to sleep some time after it has looked at its children.  A parent that goes
to sleep while the wakeup of a child is still to come is woken up; one that goes
to sleep after all of them sleeps past the exit of its children.
-/

namespace WhuOs
namespace Smp

open Library
open Process (Channel ProcState procZero)

/-- A child whose call of `proc_wakeup` in `proc_exit` has not reached the slot
of its parent. -/
def Before (parent : Pid) : Control → Prop
  | .wake chan rest next =>
      next = .exit → chan = some (.proc parent) ∧ parent ∈ rest
  | .wakeHeld chan _ rest next =>
      next = .exit → chan = some (.proc parent) ∧ parent ∈ rest
  | .exitLock => False
  | .exited => False
  | _ => True

/-- A process that is handing over a child, and whose call of `proc_wakeup` has
not reached the slot of the new parent. -/
def Hands (parent : Pid) : Control → Prop
  | .wake chan rest next =>
      chan = some (.proc parent) ∧ (∃ later, next = .reparent later) ∧
        parent ∈ rest
  | .wakeHeld chan _ rest next =>
      chan = some (.proc parent) ∧ (∃ later, next = .reparent later) ∧
        parent ∈ rest
  | _ => False

/-- The lock of the parent has been taken to wake it up. -/
def Wakes (parent : Pid) (control : Control) (shared shared' : Shared) :
    Prop :=
  ∃ rest next, control = .wake (some (.proc parent)) (parent :: rest) next ∧
    shared' = shared.wakeSlot parent (some (.proc parent))

section Thread

variable {me : Option Pid} {shared shared' : Shared} {control next : Control}
  {op : LockOp} {parent : Pid}

theorem before_afterWake {next : AfterWake} (notExit : next ≠ .exit) :
    Before parent next.control := by
  cases next with
  | caller => trivial
  | reparent rest => trivial
  | exit => exact absurd rfl notExit
  | signal event => trivial

theorem before_afterSleep (next : AfterSleep) :
    Before parent next.control := by
  cases next with
  | caller => trivial
  | wait => trivial
  | await event => trivial

theorem before_entry (call : Call) : Before parent call.entry := by
  cases call with
  | wakeup chan => exact nofun
  | _ => trivial

/-- A child goes on, or takes the lock of its parent to wake it up. -/
theorem Act.before
    {child : Pid} (act : Act me shared control op shared' next)
    (isMe : me = some child)
    (isParent : (shared.procs child).parent = some parent)
    (notParent : me ≠ some parent) (before : Before parent control) :
    Before parent next ∨ Wakes parent control shared shared' := by
  cases act with
  | exitWake isCurr =>
      rw [isMe] at isCurr
      cases isCurr
      refine Or.inl fun _ => ⟨?_, mem_allSlots parent⟩
      rw [isParent]
      rfl
  | @wakeSelf chan slot rest next isSlot =>
      refine Or.inl fun isExit => ?_
      obtain ⟨isChan, member⟩ := before isExit
      refine ⟨isChan, (List.mem_cons.mp member).resolve_left ?_⟩
      rintro rfl
      exact notParent isSlot
  | @wakeTake chan slot rest next notMe =>
      by_cases isExit : next = .exit
      · obtain ⟨rfl, member⟩ := before isExit
        rcases List.mem_cons.mp member with same | member
        · subst same
          exact Or.inr ⟨rest, next, rfl, rfl⟩
        · exact Or.inl fun _ => ⟨rfl, member⟩
      · exact Or.inl fun same => absurd same isExit
  | wakeNext => exact Or.inl before
  | @wakeDone chan next =>
      refine Or.inl (before_afterWake ?_)
      intro isExit
      obtain ⟨_, member⟩ := before isExit
      cases member
  | woken => exact Or.inl (before_afterSleep _)
  | exitHand => exact Or.inl nofun
  | signalTake => exact Or.inl nofun
  | _ => exact Or.inl trivial

/-- A process that hands over a child goes on, or takes the lock of the new
parent to wake it up. -/
theorem Act.hands
    (act : Act me shared control op shared' next)
    (notParent : me ≠ some parent) (hands : Hands parent control) :
    Hands parent next ∨ Wakes parent control shared shared' := by
  cases act with
  | @wakeSelf chan slot rest next isSlot =>
      obtain ⟨isChan, later, member⟩ := hands
      refine Or.inl ⟨isChan, later, (List.mem_cons.mp member).resolve_left ?_⟩
      rintro rfl
      exact notParent isSlot
  | @wakeTake chan slot rest next notMe =>
      obtain ⟨rfl, later, member⟩ := hands
      rcases List.mem_cons.mp member with same | member
      · subst same
        exact Or.inr ⟨rest, next, rfl, rfl⟩
      · exact Or.inl ⟨rfl, later, member⟩
  | wakeNext => exact Or.inl hands
  | wakeDone =>
      obtain ⟨_, _, member⟩ := hands
      cases member
  | _ => exact hands.elim

/-- Nobody but the parent itself gives a child that has not exited to another
parent. -/
theorem Act.parent_kept
    {child : Pid} (act : Act me shared control op shared' next)
    (outside : ¬InFork control)
    (isParent : (shared.procs child).parent = some parent)
    (notParent : me ≠ some parent)
    (notZombie : (shared.procs child).state ≠ .zombie) :
    (shared'.procs child).parent = some parent := by
  have kept : ∀ other value,
      (child = other → value.parent = some parent) →
      ((shared.setSlot other value).procs child).parent = some parent := by
    intro other value same
    by_cases isOther : child = other
    · subst isOther
      rw [setSlot_self]
      exact same rfl
    · rw [setSlot_of_ne _ isOther]
      exact isParent
  cases act with
  | forkTake => exact absurd trivial outside
  | forkFail => exact absurd trivial outside
  | forkParent => exact absurd trivial outside
  | forkRetake => exact absurd trivial outside
  | exitHand isCurr isChild =>
      refine kept _ _ fun same => ?_
      rw [← same, isParent] at isChild
      cases isChild
      exact absurd isCurr notParent
  | waitReap zombie =>
      refine kept _ _ fun same => ?_
      rw [← same] at zombie
      exact absurd zombie notZombie
  | woken =>
      refine kept _ _ fun same => ?_
      rw [← same]
      exact isParent
  | wakeTake =>
      unfold Shared.wakeSlot
      split
      · refine kept _ _ fun same => ?_
        rw [← same]
        exact isParent
      · exact isParent
  | awaitTake =>
      unfold Shared.startRequest
      split
      · exact isParent
      · exact isParent
  | _ => exact isParent

/-- Nobody frees or kills a process that has not exited. -/
theorem Act.live_kept
    {slot : Pid} (act : Act me shared control op shared' next)
    (outside : ¬InFork control)
    (used : (shared.procs slot).state ≠ .unused)
    (notZombie : (shared.procs slot).state ≠ .zombie) :
    (shared'.procs slot).state ≠ .unused ∧
      (shared'.procs slot).state ≠ .zombie := by
  rcases act.written slot with same | written
  · rw [same]
    exact ⟨used, notZombie⟩
  · generalize (shared'.procs slot).state = new at written ⊢
    generalize (shared.procs slot).state = old at written used notZombie
    cases written with
    | take => exact absurd rfl used
    | fail isAlloc =>
        rw [isAlloc] at outside
        exact absurd trivial outside
    | retake isRetake =>
        rw [isRetake] at outside
        exact absurd trivial outside
    | wake => exact ⟨nofun, nofun⟩
    | reap => exact absurd rfl notZombie

end Thread

section Machine

variable {Cpu : Type} {state after : State Cpu} {cpu : Cpu} {parent : Pid}

/-- Somebody is still going to wake up a parent: a child that has not exited, or
a process that hands a child over to it. -/
def Pending (state : State Cpu) (parent : Pid) : Prop :=
  (∃ child, (state.shared.procs child).parent = some parent ∧
    ((state.shared.procs child).state ≠ .unused ∧
      (state.shared.procs child).state ≠ .zombie) ∧
    Before parent (state.control (.proc child))) ∨
  ∃ other, Hands parent (state.control (.proc other))

/-- A parent that sleeps in `proc_wait`. -/
def SleepsInWait (state : State Cpu) (parent : Pid) : Prop :=
  state.control (.proc parent) = .sleepWoken .wait ∧
    (state.shared.procs parent).state = .sleeping

/-- Every parent that sleeps in `proc_wait` will be woken up. -/
structure Attended (state : State Cpu) : Prop where
  quiet : Quiet state
  pending : ∀ parent, SleepsInWait state parent → Pending state parent

/-- A parent does not go to sleep in `proc_wait` when all its children have
passed its slot in their calls of `proc_wakeup`. -/
def SleepOk (state : State Cpu) (cpu : Cpu) : Prop :=
  ∀ curr chan, state.current cpu = some curr →
    state.control (.proc curr) = .sleepLock chan .wait → Pending state curr

theorem Booted.attended (booted : Booted state) : Attended state := by
  refine ⟨booted.quiet, fun parent sleeps => ?_⟩
  have resumes := booted.proc parent
  rw [sleeps.1] at resumes
  cases resumes

theorem Attended.awake
    (attended : Attended state) (sleeps : SleepsInWait state parent) :
    ((state.shared.wakeSlot parent (some (.proc parent))).procs
      parent).state ≠ .sleeping := by
  unfold Shared.wakeSlot
  split
  · rw [Shared.setState, setSlot_self]
    intro wrong
    cases wrong
  · next awake =>
    exact absurd ⟨sleeps.2,
      attended.quiet.asleep parent .wait sleeps.1 sleeps.2⟩ awake

variable [DecidableEq Cpu]

theorem Attended.move
    (attended : Attended state) {op : LockOp} {shared : Shared}
    {next : Control} (moves : Local NoFork state cpu op shared next)
    (sleeps : SleepsInWait (state.move cpu op shared next) parent) :
    Pending (state.move cpu op shared next) parent := by
  have outside := attended.quiet.noFork (state.thread cpu)
  have notMe : state.current cpu ≠ some parent := by
    refine attended.quiet.sane.not_current ?_ cpu
    rw [moves.sleeping sleeps.2]
    exact nofun
  have slept : SleepsInWait state parent := by
    refine ⟨?_, moves.sleeping sleeps.2⟩
    rw [← sleeps.1, control_move_of_ne notMe]
  have notWoken : ¬Wakes parent (state.at cpu) state.shared shared := by
    rintro ⟨rest, later, _, rfl⟩
    exact attended.awake slept sleeps.2
  rcases attended.pending parent slept with
    ⟨child, isParent, ⟨used, notZombie⟩, before⟩ | ⟨other, hands⟩
  · refine Or.inl ⟨child, ?_, ?_, ?_⟩
    · cases moves with
      | act acts => exact acts.parent_kept outside isParent notMe notZombie
      | enter => exact isParent
      | round => exact isParent
    · cases moves with
      | act acts => exact acts.live_kept outside used notZombie
      | enter => exact ⟨used, notZombie⟩
      | round => exact ⟨used, notZombie⟩
    · by_cases isChild : state.current cpu = some child
      · rw [control_move_self isChild]
        cases moves with
        | act acts =>
            rw [← at_of_current isChild] at before
            rcases acts.before isChild isParent notMe before with
              before | wakes
            · exact before
            · exact absurd wakes notWoken
        | enter => exact before_entry _
        | round => trivial
      · rw [control_move_of_ne isChild]
        exact before
  · refine Or.inr ⟨other, ?_⟩
    by_cases isOther : state.current cpu = some other
    · rw [control_move_self isOther]
      rw [← at_of_current isOther] at hands
      cases moves with
      | act acts =>
          rcases acts.hands notMe hands with hands | wakes
          · exact hands
          · exact absurd wakes notWoken
      | enter idle =>
          rw [idle] at hands
          exact hands.elim
      | round idle =>
          rw [idle] at hands
          exact hands.elim
    · rw [control_move_of_ne isOther]
      exact hands

/-- A process that leaves its CPU stays as far from waking up its parent as it
was. -/
theorem Pending.parkAt
    (pending : Pending state parent) {curr : Pid} {shared : Shared}
    {next : Control}
    (parks : Park curr state.shared (state.control (.proc curr)) shared next) :
    Pending (state.parkAt cpu curr shared next) parent := by
  rcases pending with ⟨child, isParent, alive, before⟩ | ⟨other, hands⟩
  · by_cases isCurr : child = curr
    · subst isCurr
      refine Or.inl ⟨child, ?_, ?_, ?_⟩
      · show (shared.procs child).parent = _
        generalize state.control (.proc child) = control at parks
        cases parks with
        | yield => rw [Shared.setState, setSlot_self, isParent]
        | sleep => rw [Shared.sleep, setSlot_self, isParent]
        | exit => rw [Shared.setState, setSlot_self, isParent]
      · show (shared.procs child).state ≠ _ ∧ (shared.procs child).state ≠ _
        generalize state.control (.proc child) = control at parks before
        cases parks with
        | yield =>
            rw [Shared.setState, setSlot_self]
            constructor <;> intro wrong <;> cases wrong
        | sleep =>
            rw [Shared.sleep, setSlot_self]
            constructor <;> intro wrong <;> cases wrong
        | exit => exact before.elim
      · rw [control_parkAt_self]
        generalize state.control (.proc child) = control at parks before
        cases parks with
        | yield => trivial
        | sleep => trivial
        | exit => exact before.elim
    · refine Or.inl ⟨child, ?_, ?_, ?_⟩
      · show (shared.procs child).parent = _
        rw [parks.others isCurr]
        exact isParent
      · show (shared.procs child).state ≠ _ ∧ (shared.procs child).state ≠ _
        rw [parks.others isCurr]
        exact alive
      · rw [control_parkAt_of_ne isCurr]
        exact before
  · refine Or.inr ⟨other, ?_⟩
    by_cases isCurr : other = curr
    · subst isCurr
      generalize state.control (.proc other) = control at parks hands
      cases parks with
      | _ => exact hands.elim
    · rw [control_parkAt_of_ne isCurr]
      exact hands

theorem Attended.parkAt
    (attended : Attended state) (sleepOk : SleepOk state cpu) {curr : Pid}
    {shared : Shared} {next : Control}
    (isCurrent : state.current cpu = some curr)
    (parks : Park curr state.shared (state.control (.proc curr)) shared next)
    (sleeps : SleepsInWait (state.parkAt cpu curr shared next) parent) :
    Pending (state.parkAt cpu curr shared next) parent := by
  refine Pending.parkAt ?_ parks
  by_cases isCurr : parent = curr
  · subst isCurr
    have isNext := sleeps.1
    rw [control_parkAt_self] at isNext
    subst isNext
    have ok := sleepOk parent
    generalize state.control (.proc parent) = control at parks ok
    cases parks with
    | sleep => exact ok _ isCurrent rfl
  · refine attended.pending parent ⟨?_, ?_⟩
    · rw [← sleeps.1, control_parkAt_of_ne isCurr]
    · rw [← parks.others isCurr]
      exact sleeps.2

theorem Attended.pickAt
    (attended : Attended state) {picked : Pid}
    (sleeps : SleepsInWait (state.pickAt cpu picked) parent) :
    Pending (state.pickAt cpu picked) parent := by
  have sleeping : ((state.shared.setState picked .running).procs parent).state =
      .sleeping := sleeps.2
  have differs : parent ≠ picked := by
    rintro rfl
    rw [Shared.setState, setSlot_self] at sleeping
    cases sleeping
  rw [Shared.setState, setSlot_of_ne _ differs] at sleeping
  rcases attended.pending parent ⟨sleeps.1, sleeping⟩ with
    ⟨child, isParent, alive, before⟩ | hands
  · refine Or.inl ⟨child, ?_, ?_, before⟩
    · show ((state.shared.setState picked .running).procs child).parent = _
      by_cases isPicked : child = picked
      · subst isPicked
        rw [Shared.setState, setSlot_self]
        exact isParent
      · rw [Shared.setState, setSlot_of_ne _ isPicked]
        exact isParent
    · show ((state.shared.setState picked .running).procs child).state ≠ _ ∧
        ((state.shared.setState picked .running).procs child).state ≠ _
      by_cases isPicked : child = picked
      · subst isPicked
        rw [Shared.setState, setSlot_self]
        constructor <;> intro wrong <;> cases wrong
      · rw [Shared.setState, setSlot_of_ne _ isPicked]
        exact alive
  · exact Or.inr hands

theorem Attended.step
    (attended : Attended state) (sleepOk : SleepOk state cpu)
    (step : Step NoFork state cpu after) : Attended after := by
  refine ⟨attended.quiet.step step, fun parent sleeps => ?_⟩
  rcases step.cases_noFork (attended.quiet.noFork (state.thread cpu)) with
    ⟨op, shared, next, moves, enabled, rfl⟩ |
      ⟨curr, shared, next, isCurrent, parks, free, rfl⟩ |
      ⟨picked, rest, isNone, scans, free, runnable, rfl⟩
  · exact attended.move moves sleeps
  · exact attended.parkAt sleepOk isCurrent parks sleeps
  · exact attended.pickAt sleeps

/-- A thread behind its call of `proc_wakeup` in `proc_exit`. -/
def PastWakeup (control : Control) : Prop :=
  control = .exitLock ∨ control = .exited

/-- A parent sleeps in `proc_wait` although a child has exited, every child is
past its call of `proc_wakeup`, and for every child that was handed over the
call in `proc_reparent` is over as well. -/
structure Stuck (state : State Cpu) (parent : Pid) : Prop where
  sleeps : SleepsInWait state parent
  zombie : ∃ child, (state.shared.procs child).parent = some parent ∧
    (state.shared.procs child).state = .zombie
  past : ∀ child, (state.shared.procs child).parent = some parent →
    (state.shared.procs child).state ≠ .unused →
    PastWakeup (state.control (.proc child))
  handed : ∀ other chan rest later,
    state.control (.proc other) = .wake chan rest (.reparent later) →
    chan ≠ some (.proc parent)
  handing : ∀ other chan slot rest later,
    state.control (.proc other) = .wakeHeld chan slot rest (.reparent later) →
    chan ≠ some (.proc parent)

end Machine

/-! ## A child that exits during the scan -/

/-- A machine with the first process and a child of it. -/
def familyState : State (Fin 2) :=
  ⟨⟨fun slot => if slot = 0 then ⟨.runnable, none, none⟩
      else if slot = 1 then ⟨.runnable, some 0, none⟩
      else ⟨.unused, none, none⟩, fun _ => false⟩,
    fun _ => none, fun _ => none,
    fun thread => match thread with
      | .proc _ => .resume
      | .sched _ => .idle, 63⟩

theorem familyState_booted : Booted familyState where
  locks _ := rfl
  current _ := rfl
  sched _ := rfl
  proc _ := rfl
  fresh slot := by
    unfold familyState
    dsimp only
    split
    · exact Or.inr rfl
    · split
      · exact Or.inr rfl
      · exact Or.inl rfl
  lastScheduled := rfl

/-- The parent looks at its child and finds it alive. -/
def scanned : State (Fin 2) :=
  endOf familyState
    [(0, .round), (0, .pick), (0, .act), (0, .call .wait), (0, .act),
      (0, .act), (0, .act), (0, .act)]

/-- The parent is about to sleep, and the child starts to exit. -/
def exiting : State (Fin 2) :=
  endOf (scanned.goto 0 (.waitScan [] true))
    [(0, .act), (1, .round), (1, .pick), (1, .act), (1, .call .exit)]

/-- The child becomes a zombie, and the parent goes to sleep. -/
def abandoned : State (Fin 2) :=
  endOf (exiting.goto 1 .exitLock) [(1, .park), (1, .act), (0, .park)]

theorem scanned_facts :
    scanned.at 0 = .waitScan (allSlots.drop 2) true ∧
      scanned.current 0 = some 0 ∧
      ∀ slot ∈ allSlots.drop 2,
        (scanned.shared.procs slot).parent ≠ some 0 := by
  decide +kernel

theorem exiting_facts :
    (exiting.at 1 = .exitReparent allSlots ∧ exiting.current 1 = some 1 ∧
      (exiting.shared.procs 1).parent = some 0) ∧
      (∀ slot, exiting.locks (.proc slot) = none) ∧
      (∀ slot, (exiting.shared.procs slot).state ≠ .sleeping) ∧
      ∀ slot, (exiting.shared.procs slot).parent ≠ some 1 := by
  decide +kernel

theorem abandoned_facts :
    (abandoned.control (.proc 0) = .sleepWoken .wait ∧
      (abandoned.shared.procs 0).state = .sleeping) ∧
    ((abandoned.shared.procs 1).parent = some 0 ∧
      (abandoned.shared.procs 1).state = .zombie) ∧
    (∀ slot, (abandoned.shared.procs slot).parent = some 0 → slot = 1) ∧
    abandoned.control (.proc 1) = .exited ∧
    ∀ slot : Pid, slot ≠ 0 → slot ≠ 1 →
      abandoned.control (.proc slot) = .resume := by
  decide +kernel

theorem abandoned_reachable :
    (machine (Fin 2) NoFork).Reachable abandoned := by
  have first : (machine (Fin 2) NoFork).Reachable scanned :=
    reachable_endOf (.init familyState_booted) (by decide) (by decide +kernel)
  obtain ⟨scans, isParent, childless⟩ := scanned_facts
  rw [← goto_self scans] at first
  have second : (machine (Fin 2) NoFork).Reachable exiting :=
    reachable_endOf (goto_waitScan _ isParent first childless) (by decide)
      (by decide +kernel)
  obtain ⟨⟨exits, isChild, parent⟩, free, awake, orphan⟩ := exiting_facts
  rw [← goto_self exits] at second
  have third := goto_exitReparent _ isChild second orphan
  exact reachable_endOf (goto_wake allSlots third free awake) (by decide)
    (by decide +kernel)

end Smp
end WhuOs
