import Mathlib.Data.List.Basic

/-!
# Programs that may panic and wait

A program transforms a state.  It may panic, and it may give up the processor
while it waits for a device.  Its behaviour is a tree whose branches are the
states in which it can be resumed.  Resuming every wait in the state it was
entered with gives the outcome of a run that is not interrupted.
-/

namespace Library

universe u v

/-- What a program does from a given state on. -/
inductive Behaviour (σ : Type u) (α : Type v)
  | done (value : α) (state : σ)
  | panic (message : String)
  /-- Leaves the processor in a state, to be resumed in a later one. -/
  | wait (state : σ) (resume : σ → Behaviour σ α)

namespace Behaviour

variable {σ τ : Type u} {α β : Type v}

/-- Sequential composition. -/
def bind (behaviour : Behaviour σ α) (next : α → σ → Behaviour σ β) :
    Behaviour σ β :=
  match behaviour with
  | done value state => next value state
  | panic message => .panic message
  | wait state resume => .wait state fun state => (resume state).bind next

/-- The outcome when nobody else runs while the program waits. -/
def exec : Behaviour σ α → Except String (α × σ)
  | done value state => .ok (value, state)
  | panic message => .error message
  | wait state resume => (resume state).exec

/-- A state in which the processor is given up, when nobody else runs. -/
def Waits : Behaviour σ α → σ → Prop
  | done _ _, _ => False
  | panic _, _ => False
  | wait state resume, middle => middle = state ∨ (resume state).Waits middle

/-- Run on a part of a larger state. -/
def zoom (get : τ → σ) (set : σ → τ → τ) (whole : τ) :
    Behaviour σ α → Behaviour τ α
  | done value state => .done value (set state whole)
  | panic message => .panic message
  | wait state resume =>
      .wait (set state whole) fun whole => zoom get set whole
        (resume (get whole))

theorem exec_bind
    (behaviour : Behaviour σ α) (next : α → σ → Behaviour σ β) :
    (behaviour.bind next).exec =
      match behaviour.exec with
      | .ok (value, state) => (next value state).exec
      | .error message => .error message := by
  induction behaviour with
  | done value state => rfl
  | panic message => rfl
  | wait state resume inductionHypothesis =>
      exact inductionHypothesis state

theorem waits_bind
    (behaviour : Behaviour σ α) (next : α → σ → Behaviour σ β) (middle : σ) :
    (behaviour.bind next).Waits middle ↔ behaviour.Waits middle ∨
      ∃ value state, behaviour.exec = .ok (value, state) ∧
        (next value state).Waits middle := by
  induction behaviour with
  | done value state => simp [bind, Waits, exec]
  | panic message => simp [bind, Waits, exec]
  | wait state resume inductionHypothesis =>
      simp only [bind, Waits, exec]
      rw [inductionHypothesis state, or_assoc]

theorem exec_zoom
    (get : τ → σ) (set : σ → τ → τ)
    (get_set : ∀ state whole, get (set state whole) = state)
    (set_set : ∀ state state' whole,
      set state (set state' whole) = set state whole)
    (whole : τ) (behaviour : Behaviour σ α) :
    (behaviour.zoom get set whole).exec =
      match behaviour.exec with
      | .ok (value, state) => .ok (value, set state whole)
      | .error message => .error message := by
  induction behaviour generalizing whole with
  | done value state => rfl
  | panic message => rfl
  | wait state resume inductionHypothesis =>
      simp only [zoom, exec]
      rw [get_set, inductionHypothesis state (set state whole)]
      cases (resume state).exec with
      | ok result => simp only [set_set]
      | error message => rfl

end Behaviour

/-- A program over a state. -/
def Program (σ : Type u) (α : Type v) : Type (max u v) :=
  σ → Behaviour σ α

namespace Program

variable {σ τ : Type u} {α β : Type v}

instance : Monad (Program.{u, v} σ) where
  pure value := fun state => .done value state
  bind program next := fun state => (program state).bind next

/-- Read the state. -/
def get : Program σ σ := fun state => .done state state

/-- Change the state. -/
def modify (change : σ → σ) : Program σ PUnit.{v + 1} :=
  fun state => .done PUnit.unit (change state)

/-- Stop the machine. -/
def panic (message : String) : Program σ α := fun _ => .panic message

/-- Give up the processor. -/
def wait : Program σ PUnit.{v + 1} :=
  fun state => .wait state fun state => .done PUnit.unit state

/-- Panic unless a condition holds. -/
def assert (condition : Bool) (message : String) : Program σ PUnit.{v + 1} :=
  if condition then pure PUnit.unit else panic message

/-- Run a program on a part of a larger state. -/
def zoom (get : τ → σ) (set : σ → τ → τ) (program : Program σ α) :
    Program τ α :=
  fun whole => (program (get whole)).zoom get set whole

/-- The outcome of an uninterrupted run. -/
def exec (program : Program σ α) (state : σ) : Except String (α × σ) :=
  (program state).exec

/-- An uninterrupted run returns a value and ends in a state. -/
def Runs (program : Program σ α) (before : σ) (value : α) (after : σ) :
    Prop :=
  program.exec before = .ok (value, after)

theorem exec_bind
    (program : Program σ α) (next : α → Program σ β) (state : σ) :
    (program >>= next).exec state =
      match program.exec state with
      | .ok (value, state) => (next value).exec state
      | .error message => .error message :=
  Behaviour.exec_bind (program state) next

variable {before after : σ}

@[simp] theorem runs_pure {value result : α} :
    (pure value : Program σ α).Runs before result after ↔
      value = result ∧ before = after := by
  simp only [Runs, exec, pure, Behaviour.exec, Except.ok.injEq, Prod.mk.injEq]

@[simp] theorem runs_bind
    {program : Program σ α} {next : α → Program σ β} {result : β} :
    (program >>= next).Runs before result after ↔
      ∃ value middle, program.Runs before value middle ∧
        (next value).Runs middle result after := by
  simp only [Runs, exec_bind]
  cases program.exec before with
  | error message => simp
  | ok outcome =>
      simp only [Except.ok.injEq]
      constructor
      · intro rest
        exact ⟨outcome.1, outcome.2, rfl, rest⟩
      · rintro ⟨value, middle, rfl, rest⟩
        exact rest

@[simp] theorem runs_get {result : σ} :
    (get : Program σ σ).Runs before result after ↔
      before = result ∧ before = after := by
  simp only [Runs, exec, get, Behaviour.exec, Except.ok.injEq, Prod.mk.injEq]

@[simp] theorem runs_modify {change : σ → σ} {result : PUnit} :
    (modify change).Runs before result after ↔ change before = after := by
  simp only [Runs, exec, modify, Behaviour.exec, Except.ok.injEq,
    Prod.mk.injEq, true_and]

@[simp] theorem runs_panic {message : String} {result : α} :
    ¬(panic message : Program σ α).Runs before result after := by
  simp [Runs, exec, panic, Behaviour.exec]

@[simp] theorem runs_wait {result : PUnit} :
    (wait : Program σ PUnit).Runs before result after ↔ before = after := by
  simp only [Runs, exec, wait, Behaviour.exec, Except.ok.injEq,
    Prod.mk.injEq, true_and]

@[simp] theorem runs_assert
    {condition : Bool} {message : String} {result : PUnit} :
    (assert condition message : Program σ PUnit).Runs before result after ↔
      condition = true ∧ before = after := by
  cases condition <;> simp [assert]

theorem runs_zoom
    {get : τ → σ} {set : σ → τ → τ}
    (get_set : ∀ state whole, get (set state whole) = state)
    (set_set : ∀ state state' whole,
      set state (set state' whole) = set state whole)
    {program : Program σ α} {before after : τ} {result : α} :
    (zoom get set program).Runs before result after ↔
      ∃ part, program.Runs (get before) result part ∧
        set part before = after := by
  simp only [Runs, exec, zoom, Behaviour.exec_zoom get set get_set set_set]
  cases (program (get before)).exec with
  | error message => simp
  | ok outcome =>
      simp only [Except.ok.injEq, Prod.ext_iff]
      constructor
      · rintro ⟨rfl, rfl⟩
        exact ⟨outcome.2, ⟨rfl, rfl⟩, rfl⟩
      · rintro ⟨part, ⟨rfl, rfl⟩, rfl⟩
        exact ⟨rfl, rfl⟩

/-- A loop keeps what each of its iterations keeps.  The invariant may depend on
the items that are still to come. -/
theorem runs_forM_invariant
    {ι : Type*} {body : ι → Program σ PUnit.{v + 1}}
    (motive : List ι → σ → Prop)
    (step : ∀ item rest state state', motive (item :: rest) state →
      (body item).Runs state PUnit.unit state' → motive rest state')
    {items : List ι} {result : PUnit.{v + 1}}
    (start : motive items before)
    (run : (items.forM body).Runs before result after) :
    motive [] after := by
  induction items generalizing before with
  | nil =>
      simp only [List.forM, runs_pure] at run
      rw [← run.2]
      exact start
  | cons item rest inductionHypothesis =>
      simp only [List.forM, runs_bind] at run
      obtain ⟨_, middle, first, others⟩ := run
      exact inductionHypothesis (step item rest before middle start first)
        others

/-- Two runs of a program from the same state agree. -/
theorem Runs.deterministic
    {program : Program σ α} {value value' : α} {after' : σ}
    (run : program.Runs before value after)
    (run' : program.Runs before value' after') :
    value = value' ∧ after = after' := by
  unfold Runs at run run'
  rw [run] at run'
  cases run'
  exact ⟨rfl, rfl⟩

/-- A run whose outcome is evaluated. -/
theorem exists_runs_of_any
    {program : Program σ α} {check : α × σ → Bool}
    (evaluated : (program.exec before).toOption.any check = true) :
    ∃ value after, program.Runs before value after ∧
      check (value, after) = true := by
  cases outcome : program.exec before with
  | error message =>
      rw [outcome] at evaluated
      cases evaluated
  | ok values =>
      rw [outcome] at evaluated
      exact ⟨values.1, values.2, outcome, evaluated⟩

/-- A sequence goes on where its first program ends. -/
theorem Runs.bind_iff
    {program : Program σ α} {next : α → Program σ β} {value : α} {middle : σ}
    {result : β} (run : program.Runs before value middle) :
    (program >>= next).Runs before result after ↔
      (next value).Runs middle result after := by
  rw [runs_bind]
  constructor
  · rintro ⟨value', middle', run', rest⟩
    obtain ⟨rfl, rfl⟩ := run.deterministic run'
    exact rest
  · intro rest
    exact ⟨value, middle, run, rest⟩

/-- A sequence goes on where its first program ends, also when it panics. -/
theorem Runs.exec_bind
    {program : Program σ α} {value : α} {middle : σ}
    (run : program.Runs before value middle) (next : α → Program σ β) :
    (program >>= next).exec before = (next value).exec middle := by
  unfold Runs at run
  rw [Program.exec_bind, run]

/-- A sequence panics when its first program does. -/
theorem exec_bind_error
    {program : Program σ α} {message : String}
    (stops : program.exec before = .error message)
    (next : α → Program σ β) :
    (program >>= next).exec before = .error message := by
  rw [exec_bind, stops]

/-- An uninterrupted run panics in a state. -/
def Panics (program : Program σ α) (before : σ) : Prop :=
  ∃ message, program.exec before = .error message

/-- A program panics where it has no run. -/
theorem panics_iff {program : Program σ α} :
    program.Panics before ↔ ¬∃ value after, program.Runs before value after := by
  unfold Panics Runs
  cases program.exec before with
  | error message => simp
  | ok outcome =>
      constructor
      · rintro ⟨message, panics⟩
        cases panics
      · intro stuck
        exact absurd ⟨outcome.1, outcome.2, rfl⟩ stuck

/-! ## Waiting -/

/-- An uninterrupted run gives up the processor in a state. -/
@[irreducible] def Waits (program : Program σ α) (before middle : σ) : Prop :=
  (program before).Waits middle

section Waits

variable {middle : σ}

@[simp] theorem not_waits_pure {value : α} :
    ¬(pure value : Program σ α).Waits before middle := by
  unfold Waits
  exact False.elim

@[simp] theorem not_waits_get :
    ¬(get : Program σ σ).Waits before middle := by
  unfold Waits
  exact False.elim

@[simp] theorem not_waits_modify {change : σ → σ} :
    ¬(modify change : Program σ PUnit.{v + 1}).Waits before middle := by
  unfold Waits
  exact False.elim

@[simp] theorem not_waits_panic {message : String} :
    ¬(panic message : Program σ α).Waits before middle := by
  unfold Waits
  exact False.elim

@[simp] theorem not_waits_assert {condition : Bool} {message : String} :
    ¬(assert condition message : Program σ PUnit.{v + 1}).Waits before
      middle := by
  unfold Waits
  cases condition <;> exact False.elim

@[simp] theorem waits_wait :
    (wait : Program σ PUnit.{v + 1}).Waits before middle ↔
      middle = before := by
  unfold Waits
  exact iff_of_eq (or_false _)

@[simp] theorem waits_bind
    {program : Program σ α} {next : α → Program σ β} :
    (program >>= next).Waits before middle ↔ program.Waits before middle ∨
      ∃ value after, program.Runs before value after ∧
        (next value).Waits after middle := by
  unfold Waits
  exact Behaviour.waits_bind (program before) next middle

/-- A sequence waits where its second program does. -/
theorem Runs.waits_bind_iff
    {program : Program σ α} {next : α → Program σ β} {value : α} {state : σ}
    (run : program.Runs before value state)
    (silent : ¬program.Waits before middle) :
    (program >>= next).Waits before middle ↔
      (next value).Waits state middle := by
  rw [waits_bind, or_iff_right silent]
  constructor
  · rintro ⟨value', state', run', rest⟩
    obtain ⟨rfl, rfl⟩ := run.deterministic run'
    exact rest
  · intro rest
    exact ⟨value, state, run, rest⟩

end Waits

/-! ## Messages -/

/-- No uninterrupted run panics with a message. -/
def Avoids (message : String) (program : Program σ α) : Prop :=
  ∀ state, program.exec state ≠ .error message

namespace Avoids

variable {message : String}

theorem of_runs
    {program : Program σ α}
    (returns : ∀ state, ∃ value after, program.Runs state value after) :
    Avoids message program := by
  intro state stops
  obtain ⟨value, after, run⟩ := returns state
  unfold Runs at run
  rw [run] at stops
  cases stops

theorem pure (value : α) : Avoids message (pure value : Program σ α) :=
  of_runs fun _ => ⟨_, _, runs_pure.mpr ⟨rfl, rfl⟩⟩

theorem get : Avoids message (get : Program σ σ) :=
  of_runs fun _ => ⟨_, _, runs_get.mpr ⟨rfl, rfl⟩⟩

theorem modify (change : σ → σ) :
    Avoids message (modify change : Program σ PUnit.{v + 1}) :=
  of_runs fun _ => ⟨PUnit.unit, _, runs_modify.mpr rfl⟩

theorem wait : Avoids message (wait : Program σ PUnit.{v + 1}) :=
  of_runs fun _ => ⟨PUnit.unit, _, runs_wait.mpr rfl⟩

theorem panic {other : String} (differs : other ≠ message) :
    Avoids message (panic other : Program σ α) := by
  intro state stops
  exact differs (Except.error.inj stops)

theorem assert {other : String} (differs : other ≠ message)
    (condition : Bool) :
    Avoids message
      (assert condition other : Program σ PUnit.{v + 1}) := by
  cases condition with
  | true => exact .pure _
  | false => exact .panic differs

theorem bind
    {program : Program σ α} {next : α → Program σ β}
    (first : Avoids message program)
    (rest : ∀ value, Avoids message (next value)) :
    Avoids message (program >>= next) := by
  intro state
  rw [exec_bind]
  cases outcome : program.exec state with
  | ok result => exact rest result.1 result.2
  | error other =>
      intro same
      cases same
      exact first state outcome

theorem ite
    {condition : Prop} [Decidable condition] {program other : Program σ α}
    (holds : condition → Avoids message program)
    (fails : ¬condition → Avoids message other) :
    Avoids message (if condition then program else other) := by
  split
  · next isTrue => exact holds isTrue
  · next isFalse => exact fails isFalse

end Avoids

/-- Where a program does not stop with a message, it does what another program
does. -/
def AgreesUnless (message : String) (program other : Program σ α) : Prop :=
  ∀ state, program.exec state = .error message ∨
    program.exec state = other.exec state

namespace AgreesUnless

variable {message : String}

theorem refl (program : Program σ α) : AgreesUnless message program program :=
  fun _ => Or.inr rfl

theorem bind
    {program other : Program σ α} {next next' : α → Program σ β}
    (first : AgreesUnless message program other)
    (rest : ∀ value, AgreesUnless message (next value) (next' value)) :
    AgreesUnless message (program >>= next) (other >>= next') := by
  intro state
  rw [exec_bind, exec_bind]
  rcases first state with stops | same
  · rw [stops]
    exact Or.inl rfl
  · rw [same]
    cases other.exec state with
    | ok result => exact rest result.1 result.2
    | error _ => exact Or.inr rfl

theorem ite
    {condition : Prop} [Decidable condition]
    {program program' other other' : Program σ α}
    (holds : AgreesUnless message program other)
    (fails : AgreesUnless message program' other') :
    AgreesUnless message (if condition then program else program')
      (if condition then other else other') := by
  split
  · exact holds
  · exact fails

end AgreesUnless

/-! ## Invariants -/

/-- Uninterrupted runs keep a property of the state. -/
def Preserves (property : σ → Prop) (program : Program σ α) : Prop :=
  ∀ ⦃before value after⦄, property before → program.Runs before value after →
    property after

namespace Preserves

variable {property : σ → Prop}

theorem pure (value : α) :
    Preserves property (pure value : Program σ α) := by
  intro before result after holds run
  rw [← (runs_pure.mp run).2]
  exact holds

theorem get : Preserves property (get : Program σ σ) := by
  intro before result after holds run
  rw [← (runs_get.mp run).2]
  exact holds

theorem panic (message : String) :
    Preserves property (panic message : Program σ α) := by
  intro before result after holds run
  exact absurd run runs_panic

theorem assert (condition : Bool) (message : String) :
    Preserves property
      (assert condition message : Program σ PUnit.{v + 1}) := by
  intro before result after holds run
  rw [← (runs_assert.mp run).2]
  exact holds

theorem modify
    {change : σ → σ}
    (kept : ∀ state, property state → property (change state)) :
    Preserves property (modify change : Program σ PUnit.{v + 1}) := by
  intro before result after holds run
  rw [← runs_modify.mp run]
  exact kept before holds

theorem bind
    {program : Program σ α} {next : α → Program σ β}
    (first : Preserves property program)
    (rest : ∀ value, Preserves property (next value)) :
    Preserves property (program >>= next) := by
  intro before result after holds run
  obtain ⟨value, middle, firstRun, restRun⟩ := runs_bind.mp run
  exact rest value (first holds firstRun) restRun

theorem ite
    {condition : Prop} [Decidable condition] {program other : Program σ α}
    (holds : Preserves property program)
    (fails : Preserves property other) :
    Preserves property (if condition then program else other) := by
  split
  · exact holds
  · exact fails

theorem forM
    {ι : Type*} {body : ι → Program σ PUnit.{v + 1}}
    (each : ∀ item, Preserves property (body item)) (items : List ι) :
    Preserves property (items.forM body) := by
  induction items with
  | nil => exact .pure _
  | cons item rest inductionHypothesis =>
      exact .bind (each item) fun _ => inductionHypothesis

end Preserves

variable {γ : Type*} {view : σ → γ}

/-- Uninterrupted runs do not change a part of the state. -/
def Keeps (view : σ → γ) (program : Program σ α) : Prop :=
  ∀ part, Preserves (fun state => view state = part) program

namespace Keeps

/-- A program keeps what every run of it leaves the same. -/
theorem of_runs
    {program : Program σ α}
    (same : ∀ {before value after}, program.Runs before value after →
      view after = view before) :
    Keeps view program := by
  intro part before value after holds run
  rw [same run, holds]

theorem runs
    {program : Program σ α} {value : α}
    (keeps : Keeps view program) (run : program.Runs before value after) :
    view after = view before :=
  keeps _ rfl run

theorem pure (value : α) : Keeps view (pure value : Program σ α) :=
  fun _ => .pure value

theorem get : Keeps view (get : Program σ σ) :=
  fun _ => .get

theorem panic (message : String) :
    Keeps view (panic message : Program σ α) :=
  fun _ => .panic message

theorem assert (condition : Bool) (message : String) :
    Keeps view (assert condition message : Program σ PUnit.{v + 1}) :=
  fun _ => .assert condition message

theorem modify
    {change : σ → σ} (same : ∀ state, view (change state) = view state) :
    Keeps view (modify change : Program σ PUnit.{v + 1}) :=
  fun _ => .modify fun state holds => (same state).trans holds

theorem bind
    {program : Program σ α} {next : α → Program σ β}
    (first : Keeps view program) (rest : ∀ value, Keeps view (next value)) :
    Keeps view (program >>= next) :=
  fun part => .bind (first part) fun value => rest value part

theorem ite
    {condition : Prop} [Decidable condition] {program other : Program σ α}
    (holds : Keeps view program) (fails : Keeps view other) :
    Keeps view (if condition then program else other) :=
  fun part => .ite (holds part) (fails part)

theorem forM
    {ι : Type*} {body : ι → Program σ PUnit.{v + 1}}
    (each : ∀ item, Keeps view (body item)) (items : List ι) :
    Keeps view (items.forM body) :=
  fun part => .forM (fun item => each item part) items

end Keeps

end Program
end Library
