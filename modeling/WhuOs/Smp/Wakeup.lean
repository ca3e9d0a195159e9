import WhuOs.Smp.Sleepers

/-!
# Lost wakeups

`proc_sleep` releases the lock of the event before it takes the lock of its
process.  A waker that passes the slot of the process in between does not find
it asleep, and the process sleeps although its condition is true.  Nothing else
loses a wakeup.
-/

namespace WhuOs
namespace Smp

open Library
open Process (Channel ProcState procZero)

/-- A thread that makes the condition of an event true and has a slot still
ahead. -/
def Ahead (event : Event) (slot : Pid) : Control → Prop
  | .wake chan rest next =>
      chan = some event.chan ∧ next = .signal event ∧ slot ∈ rest
  | .wakeHeld chan _ rest next =>
      chan = some event.chan ∧ next = .signal event ∧ slot ∈ rest
  | _ => False

/-- A thread in the middle of making the condition of an event true. -/
def Signalling (event : Event) : Control → Prop
  | .wake _ _ next => next = .signal event
  | .wakeHeld _ _ _ next => next = .signal event
  | .signalUnlock event' => event' = event
  | _ => False

section Thread

variable {me : Option Pid} {shared shared' : Shared} {control next : Control}
  {op : LockOp} {event : Event}

theorem Ahead.signalling {slot : Pid} (ahead : Ahead event slot control) :
    Signalling event control := by
  cases control with
  | wake chan rest next => exact ahead.2.1
  | wakeHeld chan other rest next => exact ahead.2.1
  | _ => exact ahead.elim

theorem mem_allSlots (slot : Pid) : slot ∈ allSlots :=
  List.mem_finRange slot

/-- A thread goes to sleep for an event because its condition is false. -/
theorem Act.cond_false
    {chan : Option Channel} (act : Act me shared control op shared' next)
    (sleeps : next = .sleepLock chan (.await event)) :
    shared'.conds event = false := by
  cases act with
  | awaitFalse isFalse =>
      cases sleeps
      exact isFalse
  | @wakeDone _ afterWake =>
      cases afterWake with
      | _ => cases sleeps
  | @woken _ afterSleep =>
      cases afterSleep with
      | _ => cases sleeps
  | _ => cases sleeps

/-- A condition becomes true when a thread starts to wake up all slots. -/
theorem Act.cond_true
    (slot : Pid) (act : Act me shared control op shared' next)
    (isTrue : shared'.conds event = true) :
    shared.conds event = true ∨ Ahead event slot next := by
  cases act with
  | @signalTake event' =>
      by_cases same : event = event'
      · subst same
        exact Or.inr ⟨rfl, rfl, mem_allSlots slot⟩
      · refine Or.inl ?_
        rw [Shared.setCond] at isTrue
        dsimp only at isTrue
        rwa [Function.update_of_ne same] at isTrue
  | @awaitTake event' request =>
      refine Or.inl ?_
      unfold Shared.startRequest at isTrue
      split at isTrue
      · by_cases same : event = event'
        · subst same
          rw [Shared.setCond] at isTrue
          dsimp only at isTrue
          rw [Function.update_self] at isTrue
          cases isTrue
        · rw [Shared.setCond] at isTrue
          dsimp only at isTrue
          rwa [Function.update_of_ne same] at isTrue
      · exact isTrue
  | wakeTake =>
      refine Or.inl ?_
      unfold Shared.wakeSlot at isTrue
      split at isTrue
      · exact isTrue
      · exact isTrue
  | _ => exact Or.inl isTrue

/-- A waker keeps a slot ahead until it takes the lock of the slot. -/
theorem Act.ahead
    {slot : Pid} (act : Act me shared control op shared' next)
    (ahead : Ahead event slot control) :
    Ahead event slot next ∨ me = some slot ∨
      ∃ rest, control = .wake (some event.chan) (slot :: rest)
          (.signal event) ∧
        shared' = shared.wakeSlot slot (some event.chan) := by
  cases act with
  | @wakeSelf chan other rest next isMe =>
      obtain ⟨isChan, isNext, member⟩ := ahead
      rcases List.mem_cons.mp member with same | member
      · exact Or.inr (Or.inl (same ▸ isMe))
      · exact Or.inl ⟨isChan, isNext, member⟩
  | @wakeTake chan other rest next notMe =>
      obtain ⟨rfl, rfl, member⟩ := ahead
      rcases List.mem_cons.mp member with same | member
      · subst same
        exact Or.inr (Or.inr ⟨rest, rfl, rfl⟩)
      · exact Or.inl ⟨rfl, rfl, member⟩
  | wakeNext => exact Or.inl ahead
  | wakeDone =>
      obtain ⟨_, _, member⟩ := ahead
      cases member
  | _ => exact ahead.elim

end Thread

section Machine

variable {Cpu : Type} {state after : State Cpu} {cpu : Cpu}

/-- A process that found the condition of an event false and has released its
lock: it is about to sleep, or sleeps. -/
def Waiting (state : State Cpu) (slot : Pid) (event : Event) : Prop :=
  (∃ chan, state.control (.proc slot) = .sleepLock chan (.await event)) ∨
    (state.control (.proc slot) = .sleepWoken (.await event) ∧
      (state.shared.procs slot).state = .sleeping)

/-- Who waits for a condition that is true will be woken up. -/
structure Heard (state : State Cpu) : Prop where
  quiet : Quiet state
  waker : ∀ slot event, Waiting state slot event →
    state.shared.conds event = true →
    ∃ cpu, Ahead event slot (state.at cpu)

/-- A waker does not take the lock of a process that has released the lock of
the event in `proc_sleep` and has not taken its own lock yet. -/
def NoGap (state : State Cpu) (cpu : Cpu) : Prop :=
  ∀ chan slot rest event,
    state.at cpu = .wake chan (slot :: rest) (.signal event) →
    ∀ chan', state.control (.proc slot) ≠ .sleepLock chan' (.await event)

theorem Booted.heard (booted : Booted state) : Heard state := by
  refine ⟨booted.quiet, fun slot event waiting _ => ?_⟩
  rcases waiting with ⟨chan, sleeps⟩ | ⟨sleeps, _⟩
  · rw [booted.proc slot] at sleeps
    cases sleeps
  · rw [booted.proc slot] at sleeps
    cases sleeps

/-- A waker that takes the lock of a sleeping process wakes it up. -/
theorem Heard.awake
    (heard : Heard state) {slot : Pid} {event : Event}
    (sleeps : state.control (.proc slot) = .sleepWoken (.await event)) :
    ((state.shared.wakeSlot slot (some event.chan)).procs slot).state ≠
      .sleeping := by
  unfold Shared.wakeSlot
  split
  · rw [Shared.setState, setSlot_self]
    intro wrong
    cases wrong
  · next awake =>
    intro sleeping
    exact awake ⟨sleeping, heard.quiet.asleep slot _ sleeps sleeping⟩

variable [DecidableEq Cpu]

/-- Wakers on other CPUs stay where they are. -/
theorem Heard.move
    (heard : Heard state) (noGap : NoGap state cpu) {op : LockOp}
    {shared : Shared} {next : Control}
    (moves : Local NoFork state cpu op shared next) {slot : Pid}
    {event : Event}
    (waiting : Waiting (state.move cpu op shared next) slot event)
    (isTrue : shared.conds event = true) :
    ∃ cpu', Ahead event slot ((state.move cpu op shared next).at cpu') := by
  have atSelf : (state.move cpu op shared next).at cpu = next :=
    Sane.at_move_self state cpu shared _ next
  have atOther : ∀ cpu', cpu' ≠ cpu →
      (state.move cpu op shared next).at cpu' = state.at cpu' :=
    fun cpu' differs => heard.quiet.sane.at_move_of_ne differs shared _ next
  by_cases isMe : state.current cpu = some slot
  · -- the process itself has just found its condition false
    unfold Waiting at waiting
    rw [control_move_self isMe] at waiting
    rcases waiting with ⟨chan, sleeps⟩ | ⟨sleeps, _⟩
    · cases moves with
      | act acts =>
          rw [acts.cond_false sleeps] at isTrue
          cases isTrue
      | @enter call =>
          cases call with
          | _ => cases sleeps
      | round => cases sleeps
    · exact absurd sleeps moves.ne_sleepWoken
  · have wasWaiting : Waiting state slot event := by
      unfold Waiting at waiting ⊢
      rw [control_move_of_ne isMe] at waiting
      exact waiting.imp_right fun asleep => ⟨asleep.1, moves.sleeping asleep.2⟩
    have wasTrue : state.shared.conds event = true ∨ Ahead event slot next := by
      cases moves with
      | act acts => exact acts.cond_true slot isTrue
      | enter => exact Or.inl isTrue
      | round => exact Or.inl isTrue
    rcases wasTrue with wasTrue | ahead
    · obtain ⟨cpu', ahead⟩ := heard.waker slot event wasWaiting wasTrue
      by_cases isCpu : cpu' = cpu
      · subst isCpu
        refine ⟨cpu', ?_⟩
        rw [atSelf]
        cases moves with
        | act acts =>
            rcases acts.ahead ahead with ahead | same | ⟨rest, isWake, rfl⟩
            · exact ahead
            · exact absurd same isMe
            · unfold Waiting at waiting
              rw [control_move_of_ne isMe] at waiting
              rcases waiting with ⟨chan, gap⟩ | ⟨sleeps, sleeping⟩
              · exact absurd gap (noGap _ slot rest event isWake chan)
              · exact absurd sleeping (heard.awake sleeps)
        | enter idle =>
            rw [idle] at ahead
            exact ahead.elim
        | round idle =>
            rw [idle] at ahead
            exact ahead.elim
      · refine ⟨cpu', ?_⟩
        rw [atOther cpu' isCpu]
        exact ahead
    · refine ⟨cpu, ?_⟩
      rw [atSelf]
      exact ahead

theorem Heard.parkAt
    (heard : Heard state) {curr : Pid} {shared : Shared} {next : Control}
    (isCurrent : state.current cpu = some curr)
    (parks : Park curr state.shared (state.control (.proc curr)) shared next)
    {slot : Pid} {event : Event}
    (waiting : Waiting (state.parkAt cpu curr shared next) slot event)
    (isTrue : shared.conds event = true) :
    ∃ cpu', Ahead event slot ((state.parkAt cpu curr shared next).at cpu') := by
  have sameConds : shared.conds = state.shared.conds := by
    generalize state.control (.proc curr) = control at parks
    cases parks with
    | _ => rfl
  have wasWaiting : Waiting state slot event := by
    by_cases isCurr : slot = curr
    · subst isCurr
      unfold Waiting at waiting ⊢
      rw [control_parkAt_self] at waiting
      rcases waiting with ⟨chan, sleeps⟩ | ⟨sleeps, _⟩
      · have isParked := parks.parked
        rw [sleeps] at isParked
        exact isParked.elim
      · subst sleeps
        generalize state.control (.proc slot) = control at parks ⊢
        cases parks with
        | sleep => exact Or.inl ⟨_, rfl⟩
    · unfold Waiting at waiting ⊢
      rw [control_parkAt_of_ne isCurr] at waiting
      have same : (state.parkAt cpu curr shared next).shared.procs slot =
          state.shared.procs slot := parks.others isCurr
      rw [same] at waiting
      exact waiting
  rw [sameConds] at isTrue
  obtain ⟨cpu', ahead⟩ := heard.waker slot event wasWaiting isTrue
  have differs : cpu' ≠ cpu := by
    rintro rfl
    rw [at_of_current isCurrent] at ahead
    generalize state.control (.proc curr) = control at parks ahead
    cases parks with
    | _ => exact ahead.elim
  refine ⟨cpu', ?_⟩
  have same : (state.parkAt cpu curr shared next).at cpu' = state.at cpu' :=
    heard.quiet.sane.at_park_of_ne isCurrent differs shared next
  rw [same]
  exact ahead

theorem Heard.pickAt
    (heard : Heard state) {picked : Pid} {rest : List Pid}
    (isNone : state.current cpu = none)
    (scans : state.control (.sched cpu) = .scan (picked :: rest))
    {slot : Pid} {event : Event}
    (waiting : Waiting (state.pickAt cpu picked) slot event)
    (isTrue : state.shared.conds event = true) :
    ∃ cpu', Ahead event slot ((state.pickAt cpu picked).at cpu') := by
  have wasWaiting : Waiting state slot event := by
    refine waiting.imp_right fun asleep => ⟨asleep.1, ?_⟩
    have sleeping : ((state.shared.setState picked .running).procs slot).state =
        .sleeping := asleep.2
    by_cases isPicked : slot = picked
    · subst isPicked
      rw [Shared.setState, setSlot_self] at sleeping
      cases sleeping
    · rwa [Shared.setState, setSlot_of_ne _ isPicked] at sleeping
  obtain ⟨cpu', ahead⟩ := heard.waker slot event wasWaiting isTrue
  have differs : cpu' ≠ cpu := by
    rintro rfl
    rw [at_of_none isNone, scans] at ahead
    exact ahead.elim
  refine ⟨cpu', ?_⟩
  have same : (state.pickAt cpu picked).at cpu' = state.at cpu' :=
    Sane.at_pick_of_ne state differs picked _
  rw [same]
  exact ahead

theorem Heard.step
    (heard : Heard state) (noGap : NoGap state cpu)
    (step : Step NoFork state cpu after) : Heard after := by
  refine ⟨heard.quiet.step step, fun slot event waiting isTrue => ?_⟩
  rcases step.cases_noFork (heard.quiet.noFork (state.thread cpu)) with
    ⟨op, shared, next, moves, enabled, rfl⟩ |
      ⟨curr, shared, next, isCurrent, parks, free, rfl⟩ |
      ⟨picked, rest, isNone, scans, free, runnable, rfl⟩
  · exact heard.move noGap moves waiting isTrue
  · exact heard.parkAt isCurrent parks waiting isTrue
  · exact heard.pickAt isNone scans waiting isTrue

/-- A process sleeps for an event whose condition is true, and nobody is in the
middle of waking it up. -/
structure Lost (state : State Cpu) (slot : Pid) (event : Event) : Prop where
  isTrue : state.shared.conds event = true
  sleeping : (state.shared.procs slot).state = .sleeping
  sleepSpace : (state.shared.procs slot).sleepSpace = some event.chan
  waits : state.control (.proc slot) = .sleepWoken (.await event)
  finished : ∀ cpu, ¬Signalling event (state.at cpu)

end Machine

/-! ## A wakeup between the two locks -/

/-- A process waits for the disk. -/
def diskEvent : Event := ⟨.other 0x80030000, 0x80031000⟩

/-- The first process starts a request and releases the lock of the disk, and
the interrupt comes on the other CPU. -/
def interrupted : State (Fin 2) :=
  endOf (bootState (Fin 2))
    [(0, .round), (0, .pick), (0, .act), (0, .call (.await diskEvent true)),
      (0, .act), (0, .act), (1, .interrupt diskEvent), (1, .act)]

/-- The handler of the interrupt returns, and the process goes to sleep. -/
def overslept : State (Fin 2) :=
  endOf (interrupted.goto 1 (.signalUnlock diskEvent)) [(1, .act), (0, .park)]

theorem interrupted_facts :
    interrupted.at 1 =
        .wake (some diskEvent.chan) allSlots (.signal diskEvent) ∧
      (∀ slot, interrupted.locks (.proc slot) = none) ∧
      ∀ slot, (interrupted.shared.procs slot).state ≠ .sleeping := by
  decide +kernel

theorem overslept_facts :
    (overslept.shared.conds diskEvent = true ∧
      (overslept.shared.procs 0).state = .sleeping ∧
      (overslept.shared.procs 0).sleepSpace = some diskEvent.chan) ∧
    overslept.control (.proc 0) = .sleepWoken (.await diskEvent) ∧
    overslept.at 0 = .back 0 ∧ overslept.at 1 = .idle := by
  decide +kernel

theorem overslept_reachable :
    (machine (Fin 2) NoFork).Reachable overslept := by
  have first : (machine (Fin 2) NoFork).Reachable interrupted :=
    reachable_endOf (.init bootState_booted) (by decide) (by decide +kernel)
  obtain ⟨isWake, free, awake⟩ := interrupted_facts
  rw [← goto_self isWake] at first
  exact reachable_endOf (goto_wake allSlots first free awake) (by decide)
    (by decide +kernel)

end Smp
end WhuOs
