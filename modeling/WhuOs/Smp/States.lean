import WhuOs.Smp.Execution
import WhuOs.Smp.Locks

/-!
# The state machine of processes

In runs in which `proc_fork` finds its child neither running nor dead when it
takes the lock of the child for the second time, every change of a state is one
that `proc.h` documents, and no process runs on two CPUs.
-/

namespace WhuOs
namespace Smp

open Library
open Process (Channel ProcState procZero)

variable {Cpu : Type} {state after : State Cpu} {cpu : Cpu}

/-- The second store of `proc_fork` to the state of its child does not hit a
process that runs or has exited. -/
def RetakeOk (state : State Cpu) (cpu : Cpu) : Prop :=
  ∀ slot, state.at cpu = .forkRetake slot →
    (state.shared.procs slot).state ≠ .running ∧
      (state.shared.procs slot).state ≠ .zombie

/-- A thread that creates a child in a slot. -/
def Forking (slot : Pid) (control : Control) : Prop :=
  control = .forkAlloc slot ∨ control = .forkParent slot ∨
    control = .forkRetake slot

/-- How states, locks and CPUs fit together. -/
structure Sane (state : State Cpu) : Prop where
  running : ∀ cpu slot, state.current cpu = some slot →
    (state.shared.procs slot).state = .running
  unique : ∀ cpu cpu' slot, state.current cpu = some slot →
    state.current cpu' = some slot → cpu = cpu'
  fresh : ∀ cpu slot, state.at cpu = .forkAlloc slot →
    (state.shared.procs slot).state = .runnable
  child : ∀ cpu slot, Forking slot (state.at cpu) →
    state.current cpu ≠ some slot
  held : ∀ lock cpu, state.locks lock = some cpu ↔
    Holds (state.current cpu) (state.at cpu) lock
  parked : ∀ slot, (∀ cpu, state.current cpu ≠ some slot) →
    Parked (state.control (.proc slot))

theorem not_forking_entry (call : Call) (slot : Pid) :
    ¬Forking slot call.entry := by
  cases call with
  | _ => rintro (same | same | same) <;> cases same

/-- A slot that was just taken is runnable. -/
theorem Act.fresh
    {me : Option Pid} {shared shared' : Shared} {control next : Control}
    {op : LockOp} (act : Act me shared control op shared' next) (slot : Pid)
    (isAlloc : next = .forkAlloc slot) :
    (shared'.procs slot).state = .runnable := by
  subst isAlloc
  generalize isNext : Control.forkAlloc slot = next at act
  cases act with
  | forkTake unused =>
      cases isNext
      rw [Shared.setState, setSlot_self]
  | @wakeDone _ next =>
      cases next with
      | _ => cases isNext
  | @woken _ next =>
      cases next with
      | _ => cases isNext
  | _ => cases isNext

/-- A fork goes on with its child, or takes an unused slot. -/
theorem Act.forking
    {me : Option Pid} {shared shared' : Shared} {control next : Control}
    {op : LockOp} (act : Act me shared control op shared' next) {slot : Pid}
    (forking : Forking slot next) :
    Forking slot control ∨ (shared.procs slot).state = .unused := by
  cases act with
  | forkTake unused =>
      rcases forking with same | same | same
      · cases same
        exact Or.inr unused
      · cases same
      · cases same
  | forkParent isMe =>
      rcases forking with same | same | same
      · cases same
      · cases same
      · cases same
        exact Or.inl (Or.inr (Or.inl rfl))
  | @wakeDone _ next =>
      cases next with
      | _ => rcases forking with same | same | same <;> cases same
  | @woken _ next =>
      cases next with
      | _ => rcases forking with same | same | same <;> cases same
  | _ => rcases forking with same | same | same <;> cases same

theorem thread_of_current
    {slot : Pid} (isCurrent : state.current cpu = some slot) :
    state.thread cpu = .proc slot := by
  unfold State.thread
  rw [isCurrent]

theorem thread_of_none
    (isNone : state.current cpu = none) :
    state.thread cpu = .sched cpu := by
  unfold State.thread
  rw [isNone]

theorem at_of_current
    {slot : Pid} (isCurrent : state.current cpu = some slot) :
    state.at cpu = state.control (.proc slot) := by
  unfold State.at
  rw [thread_of_current isCurrent]

theorem at_of_none
    (isNone : state.current cpu = none) :
    state.at cpu = state.control (.sched cpu) := by
  unfold State.at
  rw [thread_of_none isNone]

theorem current_of_thread
    {slot : Pid} (isThread : state.thread cpu = .proc slot) :
    state.current cpu = some slot := by
  unfold State.thread at isThread
  cases current : state.current cpu with
  | some other =>
      rw [current] at isThread
      cases isThread
      rfl
  | none =>
      rw [current] at isThread
      cases isThread

theorem proc_ne_sched {slot : Pid} : Thread.proc slot ≠ Thread.sched cpu :=
  nofun

namespace Sane

/-- A slot that is not running is on no CPU. -/
theorem not_current
    (sane : Sane state) {slot : Pid}
    (notRunning : (state.shared.procs slot).state ≠ .running) (cpu : Cpu) :
    state.current cpu ≠ some slot := fun isCurrent =>
  notRunning (sane.running cpu slot isCurrent)

theorem thread_injective
    (sane : Sane state) {cpu cpu' : Cpu}
    (same : state.thread cpu = state.thread cpu') : cpu = cpu' := by
  cases current : state.current cpu with
  | some slot =>
      rw [thread_of_current current] at same
      exact sane.unique cpu cpu' slot current (current_of_thread same.symm)
  | none =>
      cases current' : state.current cpu' with
      | some slot =>
          rw [thread_of_current current', thread_of_none current] at same
          cases same
      | none =>
          rw [thread_of_none current, thread_of_none current'] at same
          exact Thread.sched.inj same

variable [DecidableEq Cpu]

/-- The CPU that makes a step moves on. -/
theorem at_move_self (state : State Cpu) (cpu : Cpu) (shared : Shared)
    (locks : Lock → Option Cpu) (next : Control) :
    State.at ⟨shared, locks, state.current,
      Function.update state.control (state.thread cpu) next,
      state.lastScheduled⟩ cpu = next :=
  Function.update_self _ _ _

/-- The other CPUs stay where they are. -/
theorem at_move_of_ne
    (sane : Sane state) {cpu cpu' : Cpu} (differs : cpu' ≠ cpu)
    (shared : Shared) (locks : Lock → Option Cpu) (next : Control) :
    State.at ⟨shared, locks, state.current,
      Function.update state.control (state.thread cpu) next,
      state.lastScheduled⟩ cpu' = state.at cpu' := by
  refine Function.update_of_ne ?_ _ _
  intro same
  exact differs (sane.thread_injective same)

/-- The locks after a step of a CPU that holds what its thread says. -/
theorem held_move
    (sane : Sane state) {op : LockOp} {next : Control}
    (enabled : op.Enabled state.locks cpu)
    (holds : ∀ lock, Holds (state.current cpu) next lock ↔
      op.After (Holds (state.current cpu) (state.at cpu)) lock)
    (shared : Shared) (lock : Lock) (cpu' : Cpu) :
    op.apply state.locks cpu lock = some cpu' ↔
      Holds (state.current cpu') (State.at ⟨shared, op.apply state.locks cpu,
        state.current, Function.update state.control (state.thread cpu) next,
        state.lastScheduled⟩ cpu') lock := by
  by_cases isCpu : cpu' = cpu
  · subst isCpu
    rw [at_move_self, holds]
    cases op with
    | none => exact sane.held lock cpu'
    | acquire taken =>
        show Function.update state.locks taken (some cpu') lock = _ ↔ _
        by_cases same : lock = taken
        · subst same
          rw [Function.update_self]
          exact iff_of_true rfl (Or.inl rfl)
        · rw [Function.update_of_ne same, sane.held]
          exact ⟨Or.inr, fun held => held.resolve_left same⟩
    | release given =>
        show Function.update state.locks given none lock = _ ↔ _
        by_cases same : lock = given
        · subst same
          rw [Function.update_self]
          exact iff_of_false nofun fun held => held.1 rfl
        · rw [Function.update_of_ne same, sane.held]
          exact ⟨fun held => ⟨same, held⟩, And.right⟩
  · rw [sane.at_move_of_ne isCpu, ← sane.held]
    cases op with
    | none => exact Iff.rfl
    | acquire taken =>
        show Function.update state.locks taken (some cpu) lock = _ ↔ _
        by_cases same : lock = taken
        · subst same
          rw [Function.update_self]
          refine iff_of_false ?_ ?_
          · intro same
            exact isCpu (Option.some.inj same).symm
          · have free : state.locks lock = none := enabled
            rw [free]
            exact nofun
        · rw [Function.update_of_ne same]
    | release given =>
        show Function.update state.locks given none lock = _ ↔ _
        by_cases same : lock = given
        · subst same
          rw [Function.update_self]
          refine iff_of_false nofun ?_
          have held : state.locks lock = some cpu := enabled
          rw [held]
          intro same
          exact isCpu (Option.some.inj same).symm
        · rw [Function.update_of_ne same]

/-- A step that leaves its thread on the CPU. -/
theorem move
    (sane : Sane state) (retakeOk : RetakeOk state cpu) {op : LockOp}
    {shared : Shared} {next : Control}
    (enabled : op.Enabled state.locks cpu)
    (holds : ∀ lock, Holds (state.current cpu) next lock ↔
      op.After (Holds (state.current cpu) (state.at cpu)) lock)
    (written : ∀ slot, (shared.procs slot).state =
        (state.shared.procs slot).state ∨
      Written (state.at cpu) op slot (state.shared.procs slot).state
        (shared.procs slot).state)
    (fresh : ∀ slot, next = .forkAlloc slot →
      (shared.procs slot).state = .runnable)
    (child : ∀ slot, Forking slot next → state.current cpu ≠ some slot) :
    Sane ⟨shared, op.apply state.locks cpu, state.current,
      Function.update state.control (state.thread cpu) next,
      state.lastScheduled⟩ := by
  refine ⟨?_, sane.unique, ?_, ?_, sane.held_move enabled holds shared, ?_⟩
  · intro cpu' slot isCurrent
    have wasRunning := sane.running cpu' slot isCurrent
    rcases written slot with same | change
    · exact same.trans wasRunning
    · rw [wasRunning] at change
      generalize (shared.procs slot).state = new at change ⊢
      cases change with
      | fail isAlloc =>
          rw [sane.fresh cpu slot isAlloc] at wasRunning
          cases wasRunning
      | retake isRetake =>
          exact absurd wasRunning (retakeOk slot isRetake).1
  · intro cpu' slot isAlloc
    by_cases isCpu : cpu' = cpu
    · subst isCpu
      rw [at_move_self] at isAlloc
      exact fresh slot isAlloc
    · rw [sane.at_move_of_ne isCpu] at isAlloc
      have wasRunnable := sane.fresh cpu' slot isAlloc
      have held : state.locks (.proc slot) = some cpu' := by
        rw [sane.held, isAlloc]
        rfl
      rcases written slot with same | change
      · exact same.trans wasRunnable
      · rw [wasRunnable] at change
        generalize (shared.procs slot).state = new at change ⊢
        cases change with
        | fail _ isOp =>
            rw [isOp] at enabled
            have enabled : state.locks (.proc slot) = some cpu := enabled
            rw [held] at enabled
            exact absurd (Option.some.inj enabled) isCpu
        | retake _ isOp => rfl
  · intro cpu' slot forking
    by_cases isCpu : cpu' = cpu
    · subst isCpu
      rw [at_move_self] at forking
      exact child slot forking
    · rw [sane.at_move_of_ne isCpu] at forking
      exact sane.child cpu' slot forking
  · intro slot nowhere
    have differs : Thread.proc slot ≠ state.thread cpu := by
      intro same
      exact nowhere cpu (current_of_thread same.symm)
    show Parked (Function.update state.control _ _ _)
    rw [Function.update_of_ne differs]
    exact sane.parked slot nowhere

/-- A thread starts a call, or a scheduler starts a round. -/
theorem enter
    (sane : Sane state) (next : Control) (idle : state.at cpu = .idle)
    (holdsNothing : ∀ lock, ¬Holds (state.current cpu) next lock)
    (notForking : ∀ slot, ¬Forking slot next) :
    Sane ⟨state.shared, state.locks, state.current,
      Function.update state.control (state.thread cpu) next,
      state.lastScheduled⟩ := by
  have retakeOk : RetakeOk state cpu := by
    intro slot isRetake
    rw [idle] at isRetake
    cases isRetake
  have enabled : LockOp.none.Enabled state.locks cpu := trivial
  refine sane.move retakeOk enabled ?_ (fun slot => Or.inl rfl) ?_ ?_
  · intro lock
    refine iff_of_false (holdsNothing lock) ?_
    rw [idle]
    exact id
  · intro slot isAlloc
    exact absurd (Or.inl isAlloc) (notForking slot)
  · intro slot forking
    exact absurd forking (notForking slot)

/-- The child is released; it can be scheduled from now on. -/
theorem spawn
    (sane : Sane state) {slot : Pid} (isAlloc : state.at cpu = .forkAlloc slot)
    (held : state.locks (.proc slot) = some cpu) :
    Sane ⟨state.shared, Function.update state.locks (.proc slot) none,
      state.current, Function.update (Function.update state.control
        (state.thread cpu) (.forkParent slot)) (.proc slot) .resume,
      state.lastScheduled⟩ := by
  have runnable := sane.fresh cpu slot isAlloc
  have nowhere : ∀ cpu', state.current cpu' ≠ some slot :=
    sane.not_current (by rw [runnable]; decide)
  have retakeOk : RetakeOk state cpu := by
    intro other isRetake
    rw [isAlloc] at isRetake
    cases isRetake
  have enabled : (LockOp.release (.proc slot)).Enabled state.locks cpu := held
  have moved : Sane ⟨state.shared,
      Function.update state.locks (.proc slot) none, state.current,
      Function.update state.control (state.thread cpu) (.forkParent slot),
      state.lastScheduled⟩ := by
    refine sane.move retakeOk enabled ?_ (fun other => Or.inl rfl) nofun ?_
    · intro lock
      refine iff_of_false id ?_
      rw [isAlloc]
      exact fun holds => holds.1 holds.2
    · intro other forking
      have same : other = slot := by
        rcases forking with same | same | same
        · cases same
        · cases same
          rfl
        · cases same
      rw [same]
      exact nowhere cpu
  have sameAt : ∀ cpu', State.at ⟨state.shared,
      Function.update state.locks (.proc slot) none, state.current,
      Function.update (Function.update state.control (state.thread cpu)
        (.forkParent slot)) (.proc slot) .resume, state.lastScheduled⟩ cpu' =
      State.at ⟨state.shared, Function.update state.locks (.proc slot) none,
        state.current, Function.update state.control (state.thread cpu)
          (.forkParent slot), state.lastScheduled⟩ cpu' := by
    intro cpu'
    refine Function.update_of_ne ?_ _ _
    intro same
    exact nowhere cpu' (current_of_thread same)
  refine ⟨moved.running, moved.unique, ?_, ?_, ?_, ?_⟩
  · intro cpu' other
    rw [sameAt]
    exact moved.fresh cpu' other
  · intro cpu' other
    rw [sameAt]
    exact moved.child cpu' other
  · intro lock cpu'
    rw [sameAt]
    exact moved.held lock cpu'
  · intro other nowhereOther
    by_cases same : other = slot
    · subst same
      dsimp only
      rw [Function.update_self]
      trivial
    · have kept := moved.parked other nowhereOther
      dsimp only
      rw [Function.update_of_ne fun isSlot => same (Thread.proc.inj isSlot)]
      exact kept

/-- The other CPUs stay where they are when a process leaves its CPU. -/
theorem at_park_of_ne
    (sane : Sane state) {curr : Pid} {cpu' : Cpu}
    (isCurrent : state.current cpu = some curr) (differs : cpu' ≠ cpu)
    (shared : Shared) (next : Control) :
    State.at ⟨shared, Function.update state.locks (.proc curr) (some cpu),
      Function.update state.current cpu none,
      Function.update (Function.update state.control (.proc curr) next)
        (.sched cpu) (.back curr), state.lastScheduled⟩ cpu' =
      state.at cpu' := by
  cases current : state.current cpu' with
  | some slot =>
      rw [at_of_current current, at_of_current
        ((Function.update_of_ne differs _ _).trans current)]
      dsimp only
      rw [Function.update_of_ne proc_ne_sched, Function.update_of_ne]
      intro same
      rw [Thread.proc.inj same] at current
      exact differs (sane.unique cpu' cpu curr current isCurrent)
  | none =>
      rw [at_of_none current, at_of_none
        ((Function.update_of_ne differs _ _).trans current)]
      dsimp only
      rw [Function.update_of_ne fun same => differs (Thread.sched.inj same),
        Function.update_of_ne proc_ne_sched.symm]

/-- A process leaves its CPU. -/
theorem park
    (sane : Sane state) {curr : Pid} {shared : Shared} {next : Control}
    (isCurrent : state.current cpu = some curr)
    (park : Park curr state.shared (state.control (.proc curr)) shared next)
    (free : state.locks (.proc curr) = none) :
    Sane ⟨shared, Function.update state.locks (.proc curr) (some cpu),
      Function.update state.current cpu none,
      Function.update (Function.update state.control (.proc curr) next)
        (.sched cpu) (.back curr), state.lastScheduled⟩ := by
  have elsewhere : ∀ cpu' slot, cpu' ≠ cpu →
      state.current cpu' = some slot → slot ≠ curr := by
    rintro cpu' slot differs isSlot rfl
    exact differs (sane.unique cpu' cpu slot isSlot isCurrent)
  have atSelf : State.at ⟨shared,
      Function.update state.locks (.proc curr) (some cpu),
      Function.update state.current cpu none,
      Function.update (Function.update state.control (.proc curr) next)
        (.sched cpu) (.back curr), state.lastScheduled⟩ cpu = .back curr := by
    rw [at_of_none (Function.update_self _ _ _)]
    exact Function.update_self _ _ _
  have atOther := fun cpu' (differs : cpu' ≠ cpu) =>
    sane.at_park_of_ne isCurrent differs shared next
  have currentOther : ∀ cpu', cpu' ≠ cpu →
      Function.update state.current cpu none cpu' = state.current cpu' :=
    fun cpu' differs => Function.update_of_ne differs _ _
  have notSelf : ∀ cpu' slot,
      Function.update state.current cpu none cpu' = some slot →
      cpu' ≠ cpu := by
    rintro cpu' slot isSlot rfl
    rw [Function.update_self] at isSlot
    cases isSlot
  refine ⟨?_, ?_, ?_, ?_, ?_, ?_⟩
  · intro cpu' slot isSlot
    have differs := notSelf cpu' slot isSlot
    have isSlot : Function.update state.current cpu none cpu' = some slot :=
      isSlot
    rw [currentOther cpu' differs] at isSlot
    show (shared.procs slot).state = _
    rw [park.others (elsewhere cpu' slot differs isSlot)]
    exact sane.running cpu' slot isSlot
  · intro cpu' cpu'' slot isSlot isSlot'
    have differs := notSelf cpu' slot isSlot
    have differs' := notSelf cpu'' slot isSlot'
    refine sane.unique cpu' cpu'' slot ?_ ?_
    · rw [← currentOther cpu' differs]
      exact isSlot
    · rw [← currentOther cpu'' differs']
      exact isSlot'
  · intro cpu' slot isAlloc
    have differs : cpu' ≠ cpu := by
      rintro rfl
      rw [atSelf] at isAlloc
      cases isAlloc
    rw [atOther cpu' differs] at isAlloc
    have notCurr : slot ≠ curr := by
      rintro rfl
      have running := sane.running cpu slot isCurrent
      rw [sane.fresh cpu' slot isAlloc] at running
      cases running
    show (shared.procs slot).state = _
    rw [park.others notCurr]
    exact sane.fresh cpu' slot isAlloc
  · intro cpu' slot forking
    by_cases isCpu : cpu' = cpu
    · subst isCpu
      show Function.update state.current cpu' none cpu' ≠ some slot
      rw [Function.update_self]
      exact nofun
    · rw [atOther cpu' isCpu] at forking
      show Function.update state.current cpu none cpu' ≠ some slot
      rw [currentOther cpu' isCpu]
      exact sane.child cpu' slot forking
  · intro lock cpu'
    show Function.update state.locks _ _ lock = _ ↔
      Holds (Function.update state.current cpu none cpu') _ _
    by_cases isCpu : cpu' = cpu
    · subst isCpu
      rw [atSelf]
      by_cases same : lock = .proc curr
      · subst same
        rw [Function.update_self]
        exact iff_of_true rfl rfl
      · rw [Function.update_of_ne same, sane.held, at_of_current isCurrent]
        exact iff_of_false (park.not_holds lock) same
    · rw [atOther cpu' isCpu, currentOther cpu' isCpu, ← sane.held]
      by_cases same : lock = .proc curr
      · subst same
        rw [Function.update_self, free]
        refine iff_of_false ?_ nofun
        intro same
        exact isCpu (Option.some.inj same).symm
      · rw [Function.update_of_ne same]
  · intro slot nowhere
    dsimp only at nowhere ⊢
    rw [Function.update_of_ne proc_ne_sched]
    by_cases same : slot = curr
    · subst same
      rw [Function.update_self]
      exact park.parked
    · rw [Function.update_of_ne fun isSlot => same (Thread.proc.inj isSlot)]
      refine sane.parked slot fun cpu' isSlot => ?_
      have differs : cpu' ≠ cpu := by
        rintro rfl
        rw [isCurrent] at isSlot
        exact same (Option.some.inj isSlot).symm
      refine nowhere cpu' ?_
      rw [currentOther cpu' differs]
      exact isSlot

/-- The other CPUs stay where they are when a process is scheduled. -/
theorem at_pick_of_ne
    {cpu' : Cpu} (state : State Cpu) (differs : cpu' ≠ cpu) (slot : Pid)
    (shared : Shared) :
    State.at ⟨shared, Function.update state.locks (.proc slot) (some cpu),
      Function.update state.current cpu (some slot), state.control,
      slot⟩ cpu' = state.at cpu' := by
  unfold State.at State.thread
  dsimp only
  rw [Function.update_of_ne differs]

/-- A CPU starts to run a process. -/
theorem pick
    (sane : Sane state) {slot : Pid} {rest : List Pid}
    (isNone : state.current cpu = none)
    (scans : state.control (.sched cpu) = .scan (slot :: rest))
    (free : state.locks (.proc slot) = none)
    (runnable : (state.shared.procs slot).state = .runnable) :
    Sane ⟨state.shared.setState slot .running,
      Function.update state.locks (.proc slot) (some cpu),
      Function.update state.current cpu (some slot), state.control, slot⟩ := by
  have nowhere : ∀ cpu', state.current cpu' ≠ some slot :=
    sane.not_current (by rw [runnable]; decide)
  have isParked := sane.parked slot nowhere
  have atSelf : State.at ⟨state.shared.setState slot .running,
      Function.update state.locks (.proc slot) (some cpu),
      Function.update state.current cpu (some slot), state.control,
      slot⟩ cpu = state.control (.proc slot) :=
    at_of_current (Function.update_self _ _ _)
  have currentOther : ∀ cpu', cpu' ≠ cpu →
      Function.update state.current cpu (some slot) cpu' =
        state.current cpu' :=
    fun cpu' differs => Function.update_of_ne differs _ _
  have atOther := fun cpu' (differs : cpu' ≠ cpu) =>
    at_pick_of_ne state differs slot (state.shared.setState slot .running)
  refine ⟨?_, ?_, ?_, ?_, ?_, ?_⟩
  · intro cpu' other isOther
    dsimp only at isOther ⊢
    by_cases isCpu : cpu' = cpu
    · subst isCpu
      rw [Function.update_self] at isOther
      cases isOther
      rw [Shared.setState, setSlot_self]
    · rw [currentOther cpu' isCpu] at isOther
      have differs : other ≠ slot := by
        rintro rfl
        exact nowhere cpu' isOther
      rw [Shared.setState, setSlot_of_ne _ differs]
      exact sane.running cpu' other isOther
  · intro cpu' cpu'' other isOther isOther'
    dsimp only at isOther isOther'
    by_cases isCpu : cpu' = cpu
    · by_cases isCpu' : cpu'' = cpu
      · rw [isCpu, isCpu']
      · rw [isCpu, Function.update_self] at isOther
        rw [currentOther cpu'' isCpu', ← isOther] at isOther'
        exact absurd isOther' (nowhere cpu'')
    · rw [currentOther cpu' isCpu] at isOther
      by_cases isCpu' : cpu'' = cpu
      · rw [isCpu', Function.update_self] at isOther'
        rw [← isOther'] at isOther
        exact absurd isOther (nowhere cpu')
      · rw [currentOther cpu'' isCpu'] at isOther'
        exact sane.unique cpu' cpu'' other isOther isOther'
  · intro cpu' other isAlloc
    by_cases isCpu : cpu' = cpu
    · subst isCpu
      rw [atSelf] at isAlloc
      rw [isAlloc] at isParked
      exact isParked.elim
    · rw [atOther cpu' isCpu] at isAlloc
      have held : state.locks (.proc other) = some cpu' := by
        rw [sane.held, isAlloc]
        rfl
      have differs : other ≠ slot := by
        rintro rfl
        rw [free] at held
        cases held
      show ((state.shared.setState slot .running).procs other).state = _
      rw [Shared.setState, setSlot_of_ne _ differs]
      exact sane.fresh cpu' other isAlloc
  · intro cpu' other forking
    by_cases isCpu : cpu' = cpu
    · subst isCpu
      rw [atSelf] at forking
      rcases forking with same | same | same
      · rw [same] at isParked
        exact isParked.elim
      · rw [same] at isParked
        exact isParked.elim
      · rw [same] at isParked
        exact isParked.elim
    · rw [atOther cpu' isCpu] at forking
      dsimp only
      rw [currentOther cpu' isCpu]
      exact sane.child cpu' other forking
  · intro lock cpu'
    dsimp only
    by_cases isCpu : cpu' = cpu
    · subst isCpu
      rw [atSelf, Function.update_self, isParked.holds]
      by_cases same : lock = .proc slot
      · subst same
        rw [Function.update_self]
        exact iff_of_true rfl rfl
      · rw [Function.update_of_ne same, sane.held, at_of_none isNone, scans]
        exact iff_of_false id same
    · rw [atOther cpu' isCpu, currentOther cpu' isCpu, ← sane.held]
      by_cases same : lock = .proc slot
      · subst same
        rw [Function.update_self, free]
        refine iff_of_false ?_ nofun
        intro same
        exact isCpu (Option.some.inj same).symm
      · rw [Function.update_of_ne same]
  · intro other nowhereOther
    dsimp only at nowhereOther ⊢
    refine sane.parked other fun cpu' isOther => nowhereOther cpu' ?_
    have differs : cpu' ≠ cpu := by
      rintro rfl
      rw [isNone] at isOther
      cases isOther
    rw [currentOther cpu' differs]
    exact isOther

/-- Every step keeps the invariant. -/
theorem step
    {allowed : Call → Prop} (sane : Sane state) (retakeOk : RetakeOk state cpu)
    (step : Step allowed state cpu after) : Sane after := by
  cases step with
  | @call curr call isCurrent idle isAllowed notZero =>
      have entered := sane.enter call.entry
        ((at_of_current isCurrent).trans idle) (not_holds_entry call)
        (not_forking_entry call)
      rw [thread_of_current isCurrent] at entered
      exact entered
  | @interrupt event isNone idle isAllowed =>
      have entered := sane.enter (.signalLock event)
        ((at_of_none isNone).trans idle) (fun lock => id)
        (not_forking_entry (.signal event))
      rw [thread_of_none isNone] at entered
      exact entered
  | round isNone idle =>
      have entered := sane.enter (.scan (roundFrom state.lastScheduled))
        ((at_of_none isNone).trans idle) (fun lock => id) (fun slot => by
          rintro (same | same | same) <;> cases same)
      rw [thread_of_none isNone] at entered
      exact entered
  | act acts enabled =>
      refine sane.move retakeOk enabled acts.holds acts.written acts.fresh ?_
      intro slot forking
      rcases acts.forking forking with wasForking | unused
      · exact sane.child cpu slot wasForking
      · exact sane.not_current (by rw [unused]; decide) cpu
  | spawn isAlloc held => exact sane.spawn isAlloc held
  | park isCurrent parks free => exact sane.park isCurrent parks free
  | pick isNone scans free runnable =>
      exact sane.pick isNone scans free runnable

end Sane

theorem Booted.sane (booted : Booted state) : Sane state := by
  have idle : ∀ cpu, state.at cpu = .idle := fun cpu =>
    (at_of_none (booted.current cpu)).trans (booted.sched cpu)
  refine ⟨?_, ?_, ?_, ?_, ?_, ?_⟩
  · intro cpu slot isCurrent
    rw [booted.current cpu] at isCurrent
    cases isCurrent
  · intro cpu cpu' slot isCurrent
    rw [booted.current cpu] at isCurrent
    cases isCurrent
  · intro cpu slot isAlloc
    rw [idle cpu] at isAlloc
    cases isAlloc
  · intro cpu slot _
    rw [booted.current cpu]
    exact nofun
  · intro lock cpu
    rw [booted.locks lock, idle cpu]
    exact iff_of_false nofun id
  · intro slot _
    rw [booted.proc slot]
    trivial

/-! ## Documented changes of states -/

/-- The changes of the state of a slot that `proc.h` documents, made by a CPU. -/
inductive Documented (state : State Cpu) (cpu : Cpu) (slot : Pid) :
    ProcState → ProcState → Prop
  | init : Documented state cpu slot .unused .runnable
  | dispatch : Documented state cpu slot .runnable .running
  | yield :
      state.current cpu = some slot →
      Documented state cpu slot .running .runnable
  | sleep : Documented state cpu slot .running .sleeping
  | wakeup : Documented state cpu slot .sleeping .runnable
  | exit : Documented state cpu slot .running .zombie
  | reap : Documented state cpu slot .zombie .unused
  | allocFailed :
      state.at cpu = .forkAlloc slot →
      Documented state cpu slot .runnable .unused

/-- All changes of states that a step makes are documented. -/
def StepDocumented (state : State Cpu) (cpu : Cpu) (after : State Cpu) :
    Prop :=
  ∀ slot, (after.shared.procs slot).state ≠ (state.shared.procs slot).state →
    Documented state cpu slot (state.shared.procs slot).state
      (after.shared.procs slot).state

theorem Sane.documented_of_written
    (sane : Sane state) (retakeOk : RetakeOk state cpu) {op : LockOp}
    {slot : Pid} {new : ProcState}
    (changed : new ≠ (state.shared.procs slot).state)
    (written : Written (state.at cpu) op slot (state.shared.procs slot).state
      new) :
    Documented state cpu slot (state.shared.procs slot).state new := by
  generalize old : (state.shared.procs slot).state = oldState at *
  cases written with
  | take _ => exact .init
  | fail isAlloc _ =>
      rw [← old, sane.fresh cpu slot isAlloc]
      exact .allocFailed isAlloc
  | retake isRetake _ =>
      have notHit := retakeOk slot isRetake
      rw [old] at notHit
      cases oldState with
      | unused => exact .init
      | runnable => exact absurd rfl changed
      | running => exact absurd rfl notHit.1
      | sleeping => exact .wakeup
      | zombie => exact absurd rfl notHit.2
  | wake _ => exact .wakeup
  | reap _ => exact .reap

theorem Sane.documented_of_park
    (sane : Sane state) {curr slot : Pid} {shared : Shared} {next : Control}
    (isCurrent : state.current cpu = some curr)
    (park : Park curr state.shared (state.control (.proc curr)) shared next)
    (changed : (shared.procs slot).state ≠
      (state.shared.procs slot).state) :
    Documented state cpu slot (state.shared.procs slot).state
      (shared.procs slot).state := by
  have isCurr : slot = curr := by
    by_contra differs
    exact changed (by rw [park.others differs])
  subst isCurr
  rw [sane.running cpu slot isCurrent]
  generalize state.control (.proc slot) = control at park
  cases park with
  | yield =>
      rw [Shared.setState, setSlot_self]
      exact .yield isCurrent
  | sleep =>
      rw [Shared.sleep, setSlot_self]
      exact .sleep
  | exit =>
      rw [Shared.setState, setSlot_self]
      exact .exit

/-- A step that starts from the second lock of `proc_fork`. -/
theorem act_of_forkRetake
    {me : Option Pid} {shared shared' : Shared} {next : Control} {op : LockOp}
    {slot : Pid} (act : Act me shared (.forkRetake slot) op shared' next) :
    (shared'.procs slot).state = .runnable := by
  cases act with
  | forkRetake => rw [Shared.setState, setSlot_self]

/-! ## Runs -/

variable [DecidableEq Cpu] {allowed : Call → Prop}

theorem sane_of_reachable
    (reachable : (machine Cpu allowed).ReachableBy RetakeOk state) :
    Sane state := by
  refine reachable.invariant ?_ ?_
  · intro state booted
    exact Booted.sane booted
  · intro before cpu after sane retakeOk step
    exact sane.step retakeOk step

theorem Sane.stepDocumented
    (sane : Sane state) (retakeOk : RetakeOk state cpu)
    (step : Step allowed state cpu after) :
    StepDocumented state cpu after := by
  intro slot changed
  cases step with
  | call => exact absurd rfl changed
  | interrupt => exact absurd rfl changed
  | round => exact absurd rfl changed
  | act acts enabled =>
      rcases acts.written slot with same | written
      · exact absurd same changed
      · exact sane.documented_of_written retakeOk changed written
  | spawn => exact absurd rfl changed
  | park isCurrent parks free =>
      exact sane.documented_of_park isCurrent parks changed
  | @pick picked rest isNone scans free runnable =>
      dsimp only at changed ⊢
      have isPicked : slot = picked := by
        by_contra differs
        rw [Shared.setState, setSlot_of_ne _ differs] at changed
        exact changed rfl
      subst isPicked
      rw [Shared.setState, setSlot_self, runnable]
      exact .dispatch

theorem Step.runnable_of_forkRetake
    {slot : Pid} (step : Step allowed state cpu after)
    (isRetake : state.at cpu = .forkRetake slot) :
    (after.shared.procs slot).state = .runnable := by
  cases step with
  | call isCurrent idle =>
      rw [at_of_current isCurrent, idle] at isRetake
      cases isRetake
  | interrupt isNone idle =>
      rw [at_of_none isNone, idle] at isRetake
      cases isRetake
  | round isNone idle =>
      rw [at_of_none isNone, idle] at isRetake
      cases isRetake
  | act acts enabled =>
      rw [isRetake] at acts
      exact act_of_forkRetake acts
  | spawn isAlloc =>
      rw [isAlloc] at isRetake
      cases isRetake
  | park isCurrent parks =>
      rw [at_of_current isCurrent] at isRetake
      rw [isRetake] at parks
      cases parks
  | pick isNone scans =>
      rw [at_of_none isNone, scans] at isRetake
      cases isRetake

/-! ## A child that is scheduled too early -/

/-- The first process forks; the other CPU runs the child before `proc_fork` has
taken the lock of the child again. -/
def earlyChild : List (Fin 2 × Move) :=
  [(0, .round), (0, .pick), (0, .act), (0, .call .fork), (0, .act), (0, .act),
    (0, .act), (0, .spawn), (1, .round), (1, .pick), (1, .act), (0, .act)]

/-- The first process is about to make its running child runnable. -/
def HitsChild (state : State (Fin 2)) : Prop :=
  state.at 0 = .forkRetake 1 ∧ state.current 0 = some 0 ∧
    state.locks (.proc 1) = none ∧
    (state.shared.procs 1).state = .running

instance (state : State (Fin 2)) : Decidable (HitsChild state) :=
  inferInstanceAs (Decidable (_ ∧ _ ∧ _ ∧ _))

theorem earlyChild_hits :
    (runMoves (bootState (Fin 2)) earlyChild).any (HitsChild ·) = true := by
  decide +kernel

end Smp
end WhuOs
