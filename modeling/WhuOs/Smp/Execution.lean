import WhuOs.Smp.Defs

/-!
# Running the machine

The steps of the machine as functions of the choices that are open: which CPU
moves, which call a process makes, and whether `proc_alloc` finds memory.
-/

namespace WhuOs
namespace Smp

open Library
open Process (Channel ProcState procZero)

/-- The next step of a thread that stays on its CPU. -/
def actOf (me : Option Pid) (shared : Shared) :
    Control → Option (LockOp × Shared × Control)
  | .forkScan [] => some (.none, shared, .idle)
  | .forkScan (slot :: rest) =>
      if (shared.procs slot).state = .unused then
        some (.acquire (.proc slot), shared.setState slot .runnable,
          .forkAlloc slot)
      else some (.acquire (.proc slot), shared, .forkSkip slot rest)
  | .forkSkip slot rest => some (.release (.proc slot), shared, .forkScan rest)
  | .forkAlloc slot => some (.release (.proc slot), shared.free slot, .idle)
  | .forkParent slot =>
      me.map fun curr =>
        (.none, shared.setParent slot (some curr), .forkRetake slot)
  | .forkRetake slot =>
      some (.acquire (.proc slot), shared.setState slot .runnable,
        .forkDone slot)
  | .forkDone slot => some (.release (.proc slot), shared, .idle)
  | .exitReparent (slot :: rest) =>
      me.map fun curr =>
        if (shared.procs slot).parent = some curr then
          (.none, shared.setParent slot (some procZero),
            .wake (some (.proc procZero)) allSlots (.reparent rest))
        else (.none, shared, .exitReparent rest)
  | .exitReparent [] =>
      me.map fun curr => (.none, shared,
        .wake ((shared.procs curr).parent.map .proc) allSlots .exit)
  | .wake chan (slot :: rest) next =>
      if me = some slot then some (.none, shared, .wake chan rest next)
      else some (.acquire (.proc slot), shared.wakeSlot slot chan,
        .wakeHeld chan slot rest next)
  | .wakeHeld chan slot rest next =>
      some (.release (.proc slot), shared, .wake chan rest next)
  | .wake _ [] next => some (.none, shared, next.control)
  | .waitScan (slot :: rest) haveKids =>
      me.map fun curr =>
        if (shared.procs slot).parent = some curr then
          (.none, shared, .waitLock slot rest)
        else (.none, shared, .waitScan rest haveKids)
  | .waitScan [] haveKids =>
      if haveKids then
        me.map fun curr =>
          (.none, shared, .sleepLock (some (.proc curr)) .wait)
      else some (.none, shared, .idle)
  | .waitLock slot rest =>
      if (shared.procs slot).state = .zombie then
        some (.acquire (.proc slot), shared.free slot, .waitReaped slot)
      else some (.acquire (.proc slot), shared, .waitHeld slot rest)
  | .waitHeld slot rest =>
      some (.release (.proc slot), shared, .waitScan rest true)
  | .waitReaped slot => some (.release (.proc slot), shared, .idle)
  | .sleepWoken next =>
      me.map fun curr =>
        (.release (.proc curr), shared.clearSleepSpace curr, next.control)
  | .resume => me.map fun curr => (.release (.proc curr), shared, .idle)
  | .awaitLock event request =>
      some (.acquire (.other event.lock), shared.startRequest event request,
        .awaitTest event)
  | .awaitTest event =>
      if shared.conds event then
        some (.release (.other event.lock), shared, .idle)
      else some (.release (.other event.lock), shared,
        .sleepLock (some event.chan) (.await event))
  | .signalLock event =>
      some (.acquire (.other event.lock), shared.setCond event true,
        .wake (some event.chan) allSlots (.signal event))
  | .signalUnlock event => some (.release (.other event.lock), shared, .idle)
  | .scan (slot :: rest) =>
      if (shared.procs slot).state = .runnable then none
      else some (.acquire (.proc slot), shared, .scanHeld slot rest)
  | .scanHeld slot rest => some (.release (.proc slot), shared, .scan rest)
  | .scan [] => some (.none, shared, .idle)
  | .back slot => some (.release (.proc slot), shared, .idle)
  | .idle => none
  | .exitLock => none
  | .exited => none
  | .sleepLock _ _ => none
  | .yieldLock => none

theorem act_of_actOf
    {me : Option Pid} {shared : Shared} {control : Control}
    {result : LockOp × Shared × Control}
    (found : actOf me shared control = some result) :
    Act me shared control result.1 result.2.1 result.2.2 := by
  unfold actOf at found
  split at found
  · cases found
    exact .forkFull
  · split at found
    · next unused =>
      cases found
      exact .forkTake unused
    · next used =>
      cases found
      exact .forkSkip used
  · cases found
    exact .forkNext
  · cases found
    exact .forkFail
  · obtain ⟨curr, rfl, rfl⟩ := Option.map_eq_some_iff.mp found
    exact .forkParent rfl
  · cases found
    exact .forkRetake
  · cases found
    exact .forkDone
  · obtain ⟨curr, rfl, rfl⟩ := Option.map_eq_some_iff.mp found
    split
    · next isChild => exact .exitHand rfl isChild
    · next notChild => exact .exitKeep rfl notChild
  · obtain ⟨curr, rfl, rfl⟩ := Option.map_eq_some_iff.mp found
    exact .exitWake rfl
  · split at found
    · next isMe =>
      cases found
      exact .wakeSelf isMe
    · next notMe =>
      cases found
      exact .wakeTake notMe
  · cases found
    exact .wakeNext
  · cases found
    exact .wakeDone
  · obtain ⟨curr, rfl, rfl⟩ := Option.map_eq_some_iff.mp found
    split
    · next isChild => exact .waitChild rfl isChild
    · next notChild => exact .waitSkip rfl notChild
  · split at found
    · next haveKids =>
      obtain ⟨curr, rfl, rfl⟩ := Option.map_eq_some_iff.mp found
      rw [haveKids]
      exact .waitSleep rfl
    · next noKids =>
      cases found
      rw [Bool.not_eq_true] at noKids
      rw [noKids]
      exact .waitNone
  · split at found
    · next zombie =>
      cases found
      exact .waitReap zombie
    · next alive =>
      cases found
      exact .waitAlive alive
  · cases found
    exact .waitNext
  · cases found
    exact .waitReaped
  · obtain ⟨curr, rfl, rfl⟩ := Option.map_eq_some_iff.mp found
    exact .woken rfl
  · obtain ⟨curr, rfl, rfl⟩ := Option.map_eq_some_iff.mp found
    exact .resume rfl
  · cases found
    exact .awaitTake
  · split at found
    · next isTrue =>
      cases found
      exact .awaitTrue isTrue
    · next isFalse =>
      cases found
      exact .awaitFalse (Bool.not_eq_true _ ▸ isFalse)
  · cases found
    exact .signalTake
  · cases found
    exact .signalDone
  · split at found
    · cases found
    · next notRunnable =>
      cases found
      exact .schedSkip notRunnable
  · cases found
    exact .schedNext
  · cases found
    exact .schedNone
  · cases found
    exact .schedBack
  all_goals cases found

/-- The next step of a process that calls `proc_sched`. -/
def parkOf (curr : Pid) (shared : Shared) : Control → Option (Shared × Control)
  | .yieldLock => some (shared.setState curr .runnable, .resume)
  | .sleepLock chan next => some (shared.sleep curr chan, .sleepWoken next)
  | .exitLock => some (shared.setState curr .zombie, .exited)
  | _ => none

theorem park_of_parkOf
    {curr : Pid} {shared : Shared} {control : Control}
    {result : Shared × Control}
    (found : parkOf curr shared control = some result) :
    Park curr shared control result.1 result.2 := by
  unfold parkOf at found
  split at found
  · cases found
    exact .yield
  · cases found
    exact .sleep
  · cases found
    exact .exit
  · cases found

/-- What a CPU does next. -/
inductive Move
  | call (call : Call)
  | interrupt (event : Event)
  | round
  | act
  | spawn
  | park
  | pick

/-- The call a move makes is among the allowed ones. -/
def Move.Allowed (allowed : Call → Prop) : Move → Prop
  | .call made => allowed made
  | .interrupt event => allowed (.signal event)
  | _ => True

instance (allowed : Call → Prop) [DecidablePred allowed] (move : Move) :
    Decidable (move.Allowed allowed) :=
  match move with
  | .call made => inferInstanceAs (Decidable (allowed made))
  | .interrupt event => inferInstanceAs (Decidable (allowed (.signal event)))
  | .round => inferInstanceAs (Decidable True)
  | .act => inferInstanceAs (Decidable True)
  | .spawn => inferInstanceAs (Decidable True)
  | .park => inferInstanceAs (Decidable True)
  | .pick => inferInstanceAs (Decidable True)

variable {Cpu : Type} [DecidableEq Cpu]

instance (locks : Lock → Option Cpu) (cpu : Cpu) (op : LockOp) :
    Decidable (op.Enabled locks cpu) :=
  match op with
  | .none => inferInstanceAs (Decidable True)
  | .acquire lock => inferInstanceAs (Decidable (locks lock = none))
  | .release lock => inferInstanceAs (Decidable (locks lock = some cpu))

/-- One move of a CPU, if it can make it. -/
def runMove (state : State Cpu) (cpu : Cpu) : Move → Option (State Cpu)
  | .call call =>
      match state.current cpu with
      | some curr =>
          if state.control (.proc curr) = .idle ∧
              (call = .exit → curr ≠ procZero) then
            some ⟨state.shared, state.locks, state.current,
              Function.update state.control (.proc curr) call.entry,
              state.lastScheduled⟩
          else none
      | none => none
  | .interrupt event =>
      if state.current cpu = none ∧ state.control (.sched cpu) = .idle then
        some ⟨state.shared, state.locks, state.current,
          Function.update state.control (.sched cpu) (.signalLock event),
          state.lastScheduled⟩
      else none
  | .round =>
      if state.current cpu = none ∧ state.control (.sched cpu) = .idle then
        some ⟨state.shared, state.locks, state.current,
          Function.update state.control (.sched cpu)
            (.scan (roundFrom state.lastScheduled)),
          state.lastScheduled⟩
      else none
  | .act =>
      match actOf (state.current cpu) state.shared (state.at cpu) with
      | some (op, shared, next) =>
          if op.Enabled state.locks cpu then
            some ⟨shared, op.apply state.locks cpu, state.current,
              Function.update state.control (state.thread cpu) next,
              state.lastScheduled⟩
          else none
      | none => none
  | .spawn =>
      match state.at cpu with
      | .forkAlloc slot =>
          if state.locks (.proc slot) = some cpu then
            some ⟨state.shared, Function.update state.locks (.proc slot) none,
              state.current,
              Function.update (Function.update state.control
                (state.thread cpu) (.forkParent slot)) (.proc slot) .resume,
              state.lastScheduled⟩
          else none
      | _ => none
  | .park =>
      match state.current cpu with
      | some curr =>
          match parkOf curr state.shared (state.control (.proc curr)) with
          | some (shared, next) =>
              if state.locks (.proc curr) = none then
                some ⟨shared,
                  Function.update state.locks (.proc curr) (some cpu),
                  Function.update state.current cpu none,
                  Function.update (Function.update state.control (.proc curr)
                    next) (.sched cpu) (.back curr), state.lastScheduled⟩
              else none
          | none => none
      | none => none
  | .pick =>
      match state.control (.sched cpu) with
      | .scan (slot :: _) =>
          if state.current cpu = none ∧ state.locks (.proc slot) = none ∧
              (state.shared.procs slot).state = .runnable then
            some ⟨state.shared.setState slot .running,
              Function.update state.locks (.proc slot) (some cpu),
              Function.update state.current cpu (some slot), state.control,
              slot⟩
          else none
      | _ => none

theorem step_of_runMove
    {allowed : Call → Prop} {state after : State Cpu} {cpu : Cpu} {move : Move}
    (isAllowed : move.Allowed allowed)
    (moves : runMove state cpu move = some after) :
    Step allowed state cpu after := by
  unfold runMove at moves
  cases move with
  | call call =>
      dsimp only at moves
      split at moves
      · next curr isCurrent =>
        split at moves
        · next conditions =>
          cases moves
          exact .call isCurrent conditions.1 isAllowed conditions.2
        · cases moves
      · cases moves
  | interrupt event =>
      dsimp only at moves
      split at moves
      · next conditions =>
        cases moves
        exact .interrupt conditions.1 conditions.2 isAllowed
      · cases moves
  | round =>
      dsimp only at moves
      split at moves
      · next conditions =>
        cases moves
        exact .round conditions.1 conditions.2
      · cases moves
  | act =>
      dsimp only at moves
      split at moves
      · next op shared next found =>
        split at moves
        · next enabled =>
          cases moves
          exact .act (act_of_actOf found) enabled
        · cases moves
      · cases moves
  | spawn =>
      dsimp only at moves
      split at moves
      · next slot isAlloc =>
        split at moves
        · next held =>
          cases moves
          exact .spawn isAlloc held
        · cases moves
      · cases moves
  | park =>
      dsimp only at moves
      split at moves
      · next curr isCurrent =>
        split at moves
        · next shared next found =>
          split at moves
          · next free =>
            cases moves
            exact .park isCurrent (park_of_parkOf found) free
          · cases moves
        · cases moves
      · cases moves
  | pick =>
      dsimp only at moves
      split at moves
      · next slot rest scans =>
        split at moves
        · next conditions =>
          cases moves
          exact .pick conditions.1 scans conditions.2.1 conditions.2.2
        · cases moves
      · cases moves

/-- A run of the machine, if every move can be made. -/
def runMoves (state : State Cpu) : List (Cpu × Move) → Option (State Cpu)
  | [] => some state
  | (cpu, move) :: rest => (runMove state cpu move).bind (runMoves · rest)

theorem reachable_of_runMoves
    {allowed : Call → Prop} {state final : State Cpu}
    {moves : List (Cpu × Move)}
    (reachable : (machine Cpu allowed).Reachable state)
    (isAllowed : ∀ move ∈ moves, move.2.Allowed allowed)
    (runs : runMoves state moves = some final) :
    (machine Cpu allowed).Reachable final := by
  induction moves generalizing state with
  | nil =>
      cases runs
      exact reachable
  | cons move rest inductionHypothesis =>
      obtain ⟨middle, first, runs⟩ := Option.bind_eq_some_iff.mp runs
      refine inductionHypothesis ?_ ?_ runs
      · exact .step reachable trivial
          (step_of_runMove (isAllowed move List.mem_cons_self) first)
      · intro other member
        exact isAllowed other (List.mem_cons_of_mem _ member)

/-- The state a run ends in. -/
def endOf (state : State Cpu) (moves : List (Cpu × Move)) : State Cpu :=
  (runMoves state moves).getD state

theorem reachable_endOf
    {allowed : Call → Prop} {state : State Cpu} {moves : List (Cpu × Move)}
    (reachable : (machine Cpu allowed).Reachable state)
    (isAllowed : ∀ move ∈ moves, move.2.Allowed allowed)
    (runs : (runMoves state moves).isSome = true) :
    (machine Cpu allowed).Reachable (endOf state moves) := by
  obtain ⟨final, isFinal⟩ := Option.isSome_iff_exists.mp runs
  have same : endOf state moves = final := by
    unfold endOf
    rw [isFinal]
    rfl
  rw [same]
  exact reachable_of_runMoves reachable isAllowed isFinal

/-! ## Loops of one thread

A thread that is alone with the locks it needs runs through its loops. -/

/-- The state with one CPU somewhere else in the code. -/
def State.goto (state : State Cpu) (cpu : Cpu) (next : Control) : State Cpu :=
  ⟨state.shared, state.locks, state.current,
    Function.update state.control (state.thread cpu) next,
    state.lastScheduled⟩

section Loops

variable {allowed : Call → Prop} {state : State Cpu} {cpu : Cpu}

theorem at_goto (next : Control) : (state.goto cpu next).at cpu = next :=
  Function.update_self _ _ _

theorem goto_self {control : Control} (isAt : state.at cpu = control) :
    state.goto cpu control = state := by
  unfold State.goto
  rw [← isAt]
  unfold State.at
  rw [Function.update_eq_self]

theorem goto_plain
    {control next : Control}
    (reachable : (machine Cpu allowed).Reachable (state.goto cpu control))
    (acts : Act (state.current cpu) state.shared control .none state.shared
      next) :
    (machine Cpu allowed).Reachable (state.goto cpu next) := by
  have acts' : Act ((state.goto cpu control).current cpu)
      (state.goto cpu control).shared ((state.goto cpu control).at cpu) .none
      state.shared next := by
    rw [at_goto]
    exact acts
  have step : Step allowed (state.goto cpu control) cpu _ := .act acts' trivial
  have next := reachable.step trivial step
  unfold State.goto at next ⊢
  dsimp only [State.thread] at next
  rw [Function.update_idem] at next
  exact next

theorem goto_locked
    {control held next : Control} {lock : Lock}
    (reachable : (machine Cpu allowed).Reachable (state.goto cpu control))
    (free : state.locks lock = none)
    (takes : Act (state.current cpu) state.shared control (.acquire lock)
      state.shared held)
    (gives : Act (state.current cpu) state.shared held (.release lock)
      state.shared next) :
    (machine Cpu allowed).Reachable (state.goto cpu next) := by
  have takes' : Act ((state.goto cpu control).current cpu)
      (state.goto cpu control).shared ((state.goto cpu control).at cpu)
      (.acquire lock) state.shared held := by
    rw [at_goto]
    exact takes
  have first : (machine Cpu allowed).Reachable ((State.goto ⟨state.shared,
      Function.update state.locks lock (some cpu), state.current,
      state.control, state.lastScheduled⟩ cpu held)) := by
    have step : Step allowed (state.goto cpu control) cpu _ :=
      .act takes' free
    have next := reachable.step trivial step
    unfold State.goto at next ⊢
    dsimp only [State.thread] at next
    rw [Function.update_idem] at next
    exact next
  have gives' : Act (state.current cpu) state.shared (State.at (State.goto
      ⟨state.shared, Function.update state.locks lock (some cpu),
        state.current, state.control, state.lastScheduled⟩ cpu held) cpu)
      (.release lock) state.shared next := by
    rw [at_goto]
    exact gives
  have enabled : (LockOp.release lock).Enabled
      (Function.update state.locks lock (some cpu)) cpu :=
    Function.update_self _ _ _
  have last := first.step trivial (.act gives' enabled)
  unfold State.goto at last ⊢
  dsimp only [State.thread, LockOp.apply] at last
  rw [Function.update_idem, Function.update_idem, ← free,
    Function.update_eq_self] at last
  exact last

/-- Nobody sleeps on the channel of a call of `proc_wakeup`. -/
theorem goto_wake
    {chan : Option Channel} {next : AfterWake} (rest : List Pid)
    (reachable : (machine Cpu allowed).Reachable
      (state.goto cpu (.wake chan rest next)))
    (free : ∀ slot, state.locks (.proc slot) = none)
    (awake : ∀ slot, (state.shared.procs slot).state ≠ .sleeping) :
    (machine Cpu allowed).Reachable (state.goto cpu next.control) := by
  induction rest with
  | nil => exact goto_plain reachable .wakeDone
  | cons slot rest inductionHypothesis =>
      refine inductionHypothesis ?_
      by_cases isMe : state.current cpu = some slot
      · exact goto_plain reachable (.wakeSelf isMe)
      · have same : state.shared.wakeSlot slot chan = state.shared := by
          unfold Shared.wakeSlot
          exact if_neg fun sleeps => awake slot sleeps.1
        have takes : Act (state.current cpu) state.shared
            (.wake chan (slot :: rest) next) (.acquire (.proc slot))
            (state.shared.wakeSlot slot chan)
            (.wakeHeld chan slot rest next) := .wakeTake isMe
        rw [same] at takes
        exact goto_locked reachable (free slot) takes .wakeNext

/-- A process without children exits. -/
theorem goto_exitReparent
    {curr : Pid} (rest : List Pid) (isCurrent : state.current cpu = some curr)
    (reachable : (machine Cpu allowed).Reachable
      (state.goto cpu (.exitReparent rest)))
    (childless : ∀ slot, (state.shared.procs slot).parent ≠ some curr) :
    (machine Cpu allowed).Reachable (state.goto cpu
      (.wake ((state.shared.procs curr).parent.map .proc) allSlots .exit)) := by
  induction rest with
  | nil => exact goto_plain reachable (.exitWake isCurrent)
  | cons slot rest inductionHypothesis =>
      exact inductionHypothesis
        (goto_plain reachable (.exitKeep isCurrent (childless slot)))

/-- A parent passes slots that are not its children. -/
theorem goto_waitScan
    {curr : Pid} {haveKids : Bool} (rest : List Pid)
    (isCurrent : state.current cpu = some curr)
    (reachable : (machine Cpu allowed).Reachable
      (state.goto cpu (.waitScan rest haveKids)))
    (childless : ∀ slot ∈ rest,
      (state.shared.procs slot).parent ≠ some curr) :
    (machine Cpu allowed).Reachable
      (state.goto cpu (.waitScan [] haveKids)) := by
  induction rest with
  | nil => exact reachable
  | cons slot rest inductionHypothesis =>
      refine inductionHypothesis ?_ fun other member =>
        childless other (List.mem_cons_of_mem _ member)
      exact goto_plain reachable
        (.waitSkip isCurrent (childless slot List.mem_cons_self))

end Loops

/-- A machine whose first process is runnable. -/
def bootState (Cpu : Type) [DecidableEq Cpu] : State Cpu :=
  ⟨⟨fun slot => if slot = procZero then ⟨.runnable, none, none⟩
      else ⟨.unused, none, none⟩, fun _ => false⟩,
    fun _ => none, fun _ => none,
    fun thread => match thread with
      | .proc _ => .resume
      | .sched _ => .idle, 63⟩

theorem bootState_booted : Booted (bootState Cpu) where
  locks _ := rfl
  current _ := rfl
  sched _ := rfl
  proc _ := rfl
  fresh slot := by
    unfold bootState
    dsimp only
    split
    · exact Or.inr rfl
    · exact Or.inl rfl
  lastScheduled := rfl

end Smp
end WhuOs
