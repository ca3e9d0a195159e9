import Mathlib.Logic.Relation

/-!
# Labelled transition systems

A transition system is given by its initial states and a labelled step
relation.  Runs are finite sequences of labels, and an invariant is checked on
the initial states and on single steps.  A run may be restricted by a guard on
each step, given by the state before the step and its label.
-/

namespace Library

universe u v

/-- Initial states together with a labelled step relation. -/
structure TransitionSystem (σ : Type u) (label : Type v) where
  /-- The states in which a run may start. -/
  Init : σ → Prop
  /-- One step, carrying the label of the action taken. -/
  Step : σ → label → σ → Prop

namespace TransitionSystem

variable {σ : Type u} {label : Type v} (system : TransitionSystem σ label)

/-- States reached by finite runs whose steps all satisfy a guard on the state
before the step and its label. -/
inductive ReachableBy (guard : σ → label → Prop) : σ → Prop
  | init {state : σ} :
      system.Init state → ReachableBy guard state
  | step {before after : σ} {action : label} :
      ReachableBy guard before →
      guard before action →
      system.Step before action after →
      ReachableBy guard after

/-- States reached by arbitrary finite runs. -/
def Reachable : σ → Prop :=
  system.ReachableBy fun _ _ => True

variable {system}

/-- A property that holds initially and is kept by every guarded step holds in
every state reached by guarded runs. -/
theorem ReachableBy.invariant
    {guard : σ → label → Prop}
    {property : σ → Prop}
    (initially : ∀ state, system.Init state → property state)
    (preserved : ∀ before action after,
      property before → guard before action →
      system.Step before action after → property after)
    {state : σ}
    (reachable : system.ReachableBy guard state) :
    property state := by
  induction reachable with
  | init start => exact initially _ start
  | step _ allowed taken inductionHypothesis =>
      exact preserved _ _ _ inductionHypothesis allowed taken

variable (system)

/-- Runs through states that satisfy a property, with their labels. -/
inductive Path (property : σ → Prop) : σ → List label → σ → Prop
  | nil {state : σ} :
      property state → Path property state [] state
  | cons {before middle after : σ} {action : label} {actions : List label} :
      property before →
      system.Step before action middle →
      Path property middle actions after →
      Path property before (action :: actions) after

variable {system}

theorem Path.start
    {property : σ → Prop} {before after : σ} {actions : List label}
    (path : system.Path property before actions after) : property before := by
  cases path with
  | nil holds => exact holds
  | cons holds => exact holds

/-- If a potential pays for the steps that are counted, then a run has at most
as many of them as it has potential. -/
theorem Path.count_le
    {property invariant : σ → Prop} {counted : label → Bool}
    {potential : σ → Nat}
    (preserved : ∀ before action after, invariant before →
      system.Step before action after → invariant after)
    (pays : ∀ before action after, invariant before → property before →
      property after → system.Step before action after →
      (if counted action then 1 else 0) + potential after ≤ potential before)
    {before after : σ} {actions : List label} (holds : invariant before)
    (path : system.Path property before actions after) :
    actions.countP counted + potential after ≤ potential before := by
  induction path with
  | nil => simp only [List.countP_nil, Nat.zero_add, Nat.le_refl]
  | cons isBefore step rest inductionHypothesis =>
      have paid := pays _ _ _ holds isBefore rest.start step
      have later := inductionHypothesis (preserved _ _ _ holds step)
      rw [List.countP_cons]
      omega

end TransitionSystem
end Library
