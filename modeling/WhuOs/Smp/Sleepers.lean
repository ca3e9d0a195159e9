import WhuOs.Smp.States

/-!
# Sleeping processes

What a machine without `proc_fork` keeps about processes that go to sleep: the
channel they sleep on is the one of the call they are in.
-/

namespace WhuOs
namespace Smp

open Library
open Process (Channel ProcState procZero)

/-- The calls of a machine whose processes do not fork. -/
def NoFork (call : Call) : Prop := call ≠ .fork

instance : DecidablePred NoFork := fun call =>
  inferInstanceAs (Decidable (call ≠ .fork))

/-- A point in `proc_fork`. -/
def InFork : Control → Prop
  | .forkScan _ => True
  | .forkSkip _ _ => True
  | .forkAlloc _ => True
  | .forkParent _ => True
  | .forkRetake _ => True
  | .forkDone _ => True
  | _ => False

/-- The channel of a call of `proc_sleep`. -/
def AfterSleep.Expects (slot : Pid) (chan : Option Channel) :
    AfterSleep → Prop
  | .caller => True
  | .wait => chan = some (.proc slot)
  | .await event => chan = some event.chan

/-! ## Steps of one thread -/

section Thread

variable {me : Option Pid} {shared shared' : Shared} {control next : Control}
  {op : LockOp}

theorem not_inFork_afterWake (next : AfterWake) : ¬InFork next.control := by
  cases next with
  | caller => exact id
  | reparent rest => exact id
  | exit => exact id
  | signal event => exact id

theorem not_inFork_afterSleep (next : AfterSleep) : ¬InFork next.control := by
  cases next with
  | caller => exact id
  | wait => exact id
  | await event => exact id

theorem not_inFork_entry {call : Call} (noFork : NoFork call) :
    ¬InFork call.entry := by
  cases call with
  | fork => exact absurd rfl noFork
  | _ => exact id

theorem Act.not_inFork
    (act : Act me shared control op shared' next) (outside : ¬InFork control) :
    ¬InFork next := by
  cases act with
  | wakeDone => exact not_inFork_afterWake _
  | woken => exact not_inFork_afterSleep _
  | forkFull => exact id
  | forkSkip => exact outside
  | forkNext => exact outside
  | forkTake => exact outside
  | forkFail => exact id
  | forkParent => exact outside
  | forkRetake => exact outside
  | forkDone => exact id
  | _ => exact id

theorem Parked.not_inFork (parked : Parked control) : ¬InFork control := by
  cases control with
  | resume => exact id
  | sleepWoken next => exact id
  | exited => exact id
  | _ => exact parked.elim

/-- A thread that is about to sleep in a call knows the channel of the call. -/
theorem Act.expects
    {slot : Pid} {chan : Option Channel} {after : AfterSleep}
    (act : Act me shared control op shared' next) (isMe : me = some slot)
    (sleeps : next = .sleepLock chan after) : after.Expects slot chan := by
  cases act with
  | waitSleep isCurr =>
      cases sleeps
      rw [isMe] at isCurr
      cases isCurr
      rfl
  | awaitFalse isFalse =>
      cases sleeps
      rfl
  | @wakeDone _ afterWake =>
      cases afterWake with
      | _ => cases sleeps
  | @woken _ afterSleep =>
      cases afterSleep with
      | _ => cases sleeps
  | _ => cases sleeps

theorem Act.ne_sleepWoken
    {after : AfterSleep} (act : Act me shared control op shared' next) :
    next ≠ .sleepWoken after := by
  cases act with
  | @wakeDone _ afterWake =>
      cases afterWake with
      | _ => exact nofun
  | @woken _ afterSleep =>
      cases afterSleep with
      | _ => exact nofun
  | _ => exact nofun

/-- Nobody puts another process to sleep. -/
theorem Act.sleeping
    {slot : Pid} (act : Act me shared control op shared' next)
    (sleeping : (shared'.procs slot).state = .sleeping) :
    (shared.procs slot).state = .sleeping := by
  rcases act.written slot with same | written
  · exact same.symm.trans sleeping
  · rw [sleeping] at written
    generalize (shared.procs slot).state = old at written
    cases written

/-- Nobody changes what another process sleeps on. -/
theorem Act.sleepSpace
    {slot : Pid} (act : Act me shared control op shared' next)
    (notMe : me ≠ some slot)
    (sleeping : (shared'.procs slot).state = .sleeping) :
    (shared'.procs slot).sleepSpace = (shared.procs slot).sleepSpace := by
  have kept : ∀ other value,
      (slot = other → value.state = .sleeping →
        value.sleepSpace = (shared.procs slot).sleepSpace) →
      ((shared.setSlot other value).procs slot).state = .sleeping →
      ((shared.setSlot other value).procs slot).sleepSpace =
        (shared.procs slot).sleepSpace := by
    intro other value same sleeps
    by_cases isOther : slot = other
    · subst isOther
      rw [setSlot_self] at sleeps ⊢
      exact same rfl sleeps
    · rw [setSlot_of_ne _ isOther]
  cases act with
  | forkTake => exact kept _ _ (fun _ => nofun) sleeping
  | forkFail => exact kept _ _ (fun _ => nofun) sleeping
  | forkRetake => exact kept _ _ (fun _ => nofun) sleeping
  | waitReap => exact kept _ _ (fun _ => nofun) sleeping
  | forkParent =>
      refine kept _ _ (fun same _ => ?_) sleeping
      rw [same]
  | exitHand =>
      refine kept _ _ (fun same _ => ?_) sleeping
      rw [same]
  | woken isMe =>
      refine kept _ _ (fun same _ => ?_) sleeping
      rw [same] at notMe
      exact absurd isMe notMe
  | wakeTake =>
      unfold Shared.wakeSlot at sleeping ⊢
      split at sleeping
      · next sleeps =>
        rw [if_pos sleeps]
        exact kept _ _ (fun _ => nofun) sleeping
      · next awake => rw [if_neg awake]
  | awaitTake =>
      unfold Shared.startRequest
      split
      · rfl
      · rfl
  | _ => rfl

end Thread

/-! ## Steps of the machine -/

section Machine

variable {Cpu : Type} {allowed : Call → Prop} {state after : State Cpu}
  {cpu : Cpu}

/-- A step of a thread that stays on its CPU: it goes on, starts a call, or
starts a round of the scheduler. -/
inductive Local (allowed : Call → Prop) (state : State Cpu) (cpu : Cpu) :
    LockOp → Shared → Control → Prop
  | act {op : LockOp} {shared : Shared} {next : Control} :
      Act (state.current cpu) state.shared (state.at cpu) op shared next →
      Local allowed state cpu op shared next
  | enter {call : Call} :
      state.at cpu = .idle → allowed call →
      Local allowed state cpu .none state.shared call.entry
  | round :
      state.at cpu = .idle → state.current cpu = none →
      Local allowed state cpu .none state.shared
        (.scan (roundFrom state.lastScheduled))

/-- Nobody forks, and the channels of sleeping processes are those of their
calls. -/
structure Quiet (state : State Cpu) : Prop where
  sane : Sane state
  noFork : ∀ thread, ¬InFork (state.control thread)
  window : ∀ slot chan next,
    state.control (.proc slot) = .sleepLock chan next → next.Expects slot chan
  asleep : ∀ slot next, state.control (.proc slot) = .sleepWoken next →
    (state.shared.procs slot).state = .sleeping →
    next.Expects slot (state.shared.procs slot).sleepSpace

theorem Quiet.retakeOk (quiet : Quiet state) (cpu : Cpu) :
    RetakeOk state cpu := by
  intro slot isRetake
  have outside := quiet.noFork (state.thread cpu)
  have isRetake : state.control (state.thread cpu) = .forkRetake slot :=
    isRetake
  rw [isRetake] at outside
  exact absurd trivial outside

theorem Booted.quiet (booted : Booted state) : Quiet state := by
  refine ⟨Booted.sane booted, ?_, ?_, ?_⟩
  · intro thread
    cases thread with
    | proc slot =>
        rw [booted.proc slot]
        exact id
    | sched cpu =>
        rw [booted.sched cpu]
        exact id
  · intro slot chan next sleeps
    rw [booted.proc slot] at sleeps
    cases sleeps
  · intro slot next sleeps
    rw [booted.proc slot] at sleeps
    cases sleeps

theorem Local.not_inFork
    {op : LockOp} {shared : Shared} {next : Control}
    (moves : Local NoFork state cpu op shared next)
    (outside : ¬InFork (state.at cpu)) : ¬InFork next := by
  cases moves with
  | act acts => exact acts.not_inFork outside
  | enter _ noFork => exact not_inFork_entry noFork
  | round => exact id

theorem Local.expects
    {op : LockOp} {shared : Shared} {next : Control} {slot : Pid}
    {chan : Option Channel} {after : AfterSleep}
    (moves : Local allowed state cpu op shared next)
    (isMe : state.current cpu = some slot)
    (sleeps : next = .sleepLock chan after) : after.Expects slot chan := by
  cases moves with
  | act acts => exact acts.expects isMe sleeps
  | @enter call =>
      cases call with
      | sleep chan' =>
          cases sleeps
          trivial
      | _ => cases sleeps
  | round => cases sleeps

theorem Local.ne_sleepWoken
    {op : LockOp} {shared : Shared} {next : Control} {after : AfterSleep}
    (moves : Local allowed state cpu op shared next) :
    next ≠ .sleepWoken after := by
  cases moves with
  | act acts => exact acts.ne_sleepWoken
  | @enter call =>
      cases call with
      | _ => exact nofun
  | round => exact nofun

theorem Local.sleeping
    {op : LockOp} {shared : Shared} {next : Control} {slot : Pid}
    (moves : Local allowed state cpu op shared next)
    (sleeping : (shared.procs slot).state = .sleeping) :
    (state.shared.procs slot).state = .sleeping := by
  cases moves with
  | act acts => exact acts.sleeping sleeping
  | enter => exact sleeping
  | round => exact sleeping

theorem Local.sleepSpace
    {op : LockOp} {shared : Shared} {next : Control} {slot : Pid}
    (moves : Local allowed state cpu op shared next)
    (notMe : state.current cpu ≠ some slot)
    (sleeping : (shared.procs slot).state = .sleeping) :
    (shared.procs slot).sleepSpace = (state.shared.procs slot).sleepSpace := by
  cases moves with
  | act acts => exact acts.sleepSpace notMe sleeping
  | enter => rfl
  | round => rfl

variable [DecidableEq Cpu]

/-- The state after a step of a thread that stays on its CPU. -/
def State.move (state : State Cpu) (cpu : Cpu) (op : LockOp) (shared : Shared)
    (next : Control) : State Cpu :=
  ⟨shared, op.apply state.locks cpu, state.current,
    Function.update state.control (state.thread cpu) next,
    state.lastScheduled⟩

/-- The state after a process has left its CPU. -/
def State.parkAt (state : State Cpu) (cpu : Cpu) (curr : Pid) (shared : Shared)
    (next : Control) : State Cpu :=
  ⟨shared, Function.update state.locks (.proc curr) (some cpu),
    Function.update state.current cpu none,
    Function.update (Function.update state.control (.proc curr) next)
      (.sched cpu) (.back curr), state.lastScheduled⟩

/-- The state after a process has been scheduled. -/
def State.pickAt (state : State Cpu) (cpu : Cpu) (slot : Pid) : State Cpu :=
  ⟨state.shared.setState slot .running,
    Function.update state.locks (.proc slot) (some cpu),
    Function.update state.current cpu (some slot), state.control, slot⟩

/-- The steps of a machine in which nobody is in `proc_fork`. -/
theorem Step.cases_noFork
    (step : Step allowed state cpu after) (outside : ¬InFork (state.at cpu)) :
    (∃ op shared next, Local allowed state cpu op shared next ∧
      op.Enabled state.locks cpu ∧ after = state.move cpu op shared next) ∨
    (∃ curr shared next, state.current cpu = some curr ∧
      Park curr state.shared (state.control (.proc curr)) shared next ∧
      state.locks (.proc curr) = none ∧
      after = state.parkAt cpu curr shared next) ∨
    (∃ slot rest, state.current cpu = none ∧
      state.control (.sched cpu) = .scan (slot :: rest) ∧
      state.locks (.proc slot) = none ∧
      (state.shared.procs slot).state = .runnable ∧
      after = state.pickAt cpu slot) := by
  cases step with
  | @call curr call isCurrent idle isAllowed notZero =>
      refine Or.inl ⟨.none, _, call.entry,
        .enter ((at_of_current isCurrent).trans idle) isAllowed, trivial, ?_⟩
      unfold State.move
      rw [thread_of_current isCurrent]
      rfl
  | @interrupt event isNone idle isAllowed =>
      refine Or.inl ⟨.none, _, _,
        .enter ((at_of_none isNone).trans idle) isAllowed, trivial, ?_⟩
      unfold State.move
      rw [thread_of_none isNone]
      rfl
  | round isNone idle =>
      refine Or.inl ⟨.none, _, _,
        .round ((at_of_none isNone).trans idle) isNone, trivial, ?_⟩
      unfold State.move
      rw [thread_of_none isNone]
      rfl
  | act acts enabled => exact Or.inl ⟨_, _, _, .act acts, enabled, rfl⟩
  | spawn isAlloc =>
      rw [isAlloc] at outside
      exact absurd trivial outside
  | park isCurrent parks free =>
      exact Or.inr (Or.inl ⟨_, _, _, isCurrent, parks, free, rfl⟩)
  | pick isNone scans free runnable =>
      exact Or.inr (Or.inr ⟨_, _, isNone, scans, free, runnable, rfl⟩)

theorem control_move_of_ne
    {op : LockOp} {shared : Shared} {next : Control} {slot : Pid}
    (notMe : state.current cpu ≠ some slot) :
    (state.move cpu op shared next).control (.proc slot) =
      state.control (.proc slot) := by
  refine Function.update_of_ne ?_ _ _
  intro same
  exact notMe (current_of_thread same.symm)

theorem control_move_self
    {op : LockOp} {shared : Shared} {next : Control} {slot : Pid}
    (isMe : state.current cpu = some slot) :
    (state.move cpu op shared next).control (.proc slot) = next := by
  unfold State.move
  rw [thread_of_current isMe]
  exact Function.update_self _ _ _

theorem control_parkAt_self
    {shared : Shared} {next : Control} {curr : Pid} :
    (state.parkAt cpu curr shared next).control (.proc curr) = next := by
  unfold State.parkAt
  dsimp only
  rw [Function.update_of_ne proc_ne_sched, Function.update_self]

theorem control_parkAt_of_ne
    {shared : Shared} {next : Control} {curr slot : Pid}
    (differs : slot ≠ curr) :
    (state.parkAt cpu curr shared next).control (.proc slot) =
      state.control (.proc slot) := by
  unfold State.parkAt
  dsimp only
  rw [Function.update_of_ne proc_ne_sched,
    Function.update_of_ne fun same => differs (Thread.proc.inj same)]

/-- Every step without a fork keeps the invariant. -/
theorem Quiet.step
    (quiet : Quiet state) (step : Step NoFork state cpu after) :
    Quiet after := by
  have sane := quiet.sane.step (quiet.retakeOk cpu) step
  rcases step.cases_noFork (quiet.noFork (state.thread cpu)) with
    ⟨op, shared, next, moves, enabled, rfl⟩ |
      ⟨curr, shared, next, isCurrent, parks, free, rfl⟩ |
      ⟨slot, rest, isNone, scans, free, runnable, rfl⟩
  · refine ⟨sane, fun thread => ?_, fun slot chan after => ?_,
      fun slot after => ?_⟩
    · by_cases isThread : thread = state.thread cpu
      · subst isThread
        show ¬InFork (Function.update state.control _ next _)
        rw [Function.update_self]
        exact moves.not_inFork (quiet.noFork _)
      · show ¬InFork (Function.update state.control _ next _)
        rw [Function.update_of_ne isThread]
        exact quiet.noFork thread
    · by_cases isMe : state.current cpu = some slot
      · rw [control_move_self isMe]
        exact moves.expects isMe
      · rw [control_move_of_ne isMe]
        exact quiet.window slot chan after
    · by_cases isMe : state.current cpu = some slot
      · rw [control_move_self isMe]
        intro sleeps
        exact absurd sleeps moves.ne_sleepWoken
      · rw [control_move_of_ne isMe]
        intro sleeps sleeping
        have sleeping : (shared.procs slot).state = .sleeping := sleeping
        show after.Expects slot (shared.procs slot).sleepSpace
        rw [moves.sleepSpace isMe sleeping]
        exact quiet.asleep slot after sleeps (moves.sleeping sleeping)
  · refine ⟨sane, fun thread => ?_, fun slot chan after => ?_,
      fun slot after => ?_⟩
    · cases thread with
      | proc slot =>
          by_cases isCurr : slot = curr
          · subst isCurr
            rw [control_parkAt_self]
            exact parks.parked.not_inFork
          · rw [control_parkAt_of_ne isCurr]
            exact quiet.noFork _
      | sched other =>
          unfold State.parkAt
          dsimp only
          by_cases isCpu : other = cpu
          · subst isCpu
            rw [Function.update_self]
            exact id
          · rw [Function.update_of_ne fun same => isCpu
              (Thread.sched.inj same), Function.update_of_ne
                proc_ne_sched.symm]
            exact quiet.noFork _
    · by_cases isCurr : slot = curr
      · subst isCurr
        rw [control_parkAt_self]
        intro sleeps
        have isParked := parks.parked
        rw [sleeps] at isParked
        exact isParked.elim
      · rw [control_parkAt_of_ne isCurr]
        exact quiet.window slot chan after
    · by_cases isCurr : slot = curr
      · subst isCurr
        rw [control_parkAt_self]
        intro sleeps _
        subst sleeps
        have window := quiet.window slot
        generalize state.control (.proc slot) = control at parks window
        cases parks with
        | sleep =>
            show after.Expects slot
              ((state.shared.sleep slot _).procs slot).sleepSpace
            rw [Shared.sleep, setSlot_self]
            exact window _ _ rfl
      · rw [control_parkAt_of_ne isCurr]
        show _ → (shared.procs slot).state = .sleeping →
          after.Expects slot (shared.procs slot).sleepSpace
        rw [parks.others isCurr]
        exact quiet.asleep slot after
  · refine ⟨sane, quiet.noFork, quiet.window, fun other after sleeps => ?_⟩
    show ((state.shared.setState slot .running).procs other).state = _ →
      after.Expects other
        ((state.shared.setState slot .running).procs other).sleepSpace
    by_cases isSlot : other = slot
    · subst isSlot
      rw [Shared.setState, setSlot_self]
      intro wrong
      cases wrong
    · rw [Shared.setState, setSlot_of_ne _ isSlot]
      exact quiet.asleep other after sleeps

end Machine

end Smp
end WhuOs
