import Mathlib.Data.Finset.Basic
import Mathlib.Data.Finset.Range

/-!
# Allocators of numbers

An allocator hands out the least number below a bound that is not taken, or
nothing when all are taken.  Number 0 is reserved: it is taken from the start
and never given back.
-/

namespace Library
namespace Allocator

/-- A call of an allocator with its result. -/
inductive Event
  | alloc (result : Option Nat)
  | free (number : Nat)
  deriving DecidableEq

/-- One call, by the numbers taken before and after it. -/
inductive Step (size : Nat) : Finset Nat → Event → Finset Nat → Prop
  | least {taken : Finset Nat} {number : Nat} :
      number < size → number ∉ taken →
      (∀ other < number, other ∈ taken) →
      Step size taken (.alloc (some number)) (insert number taken)
  | full {taken : Finset Nat} :
      (∀ number < size, number ∈ taken) →
      Step size taken (.alloc none) taken
  | reserved {taken : Finset Nat} :
      Step size taken (.free 0) taken
  | free {taken : Finset Nat} {number : Nat} :
      number ≠ 0 → Step size taken (.free number) (taken.erase number)

/-- A sequence of calls. -/
inductive Run (size : Nat) : Finset Nat → List Event → Finset Nat → Prop
  | nil {taken : Finset Nat} : Run size taken [] taken
  | cons {before middle after : Finset Nat} {event : Event}
      {events : List Event} :
      Step size before event middle → Run size middle events after →
      Run size before (event :: events) after

variable {size : Nat} {before after : Finset Nat} {event : Event}
variable {events : List Event} {number : Nat}

/-- Number 0 stays taken. -/
theorem Step.zero_mem
    (step : Step size before event after) (reserved : 0 ∈ before) :
    0 ∈ after := by
  cases step with
  | least => exact Finset.mem_insert_of_mem reserved
  | full => exact reserved
  | reserved => exact reserved
  | free notZero =>
      exact Finset.mem_erase.mpr ⟨Ne.symm notZero, reserved⟩

/-- A number stays taken until it is given back. -/
theorem Step.mem_of_ne_free
    (step : Step size before event after) (taken : number ∈ before)
    (kept : event ≠ .free number) : number ∈ after := by
  cases step with
  | least => exact Finset.mem_insert_of_mem taken
  | full => exact taken
  | reserved => exact taken
  | free =>
      refine Finset.mem_erase.mpr ⟨?_, taken⟩
      rintro rfl
      exact kept rfl

/-- A number that is handed out was not taken and is taken then. -/
theorem Step.alloc_iff
    (step : Step size before (.alloc (some number)) after) :
    number < size ∧ number ∉ before ∧ after = insert number before := by
  cases step with
  | least bound new => exact ⟨bound, new, rfl⟩

/-- Handing out a number and giving it back restores the numbers taken. -/
theorem Step.alloc_free
    {middle : Finset Nat}
    (first : Step size before (.alloc (some number)) middle)
    (second : Step size middle (.free number) after)
    (reserved : 0 ∈ before) : after = before := by
  obtain ⟨_, new, rfl⟩ := first.alloc_iff
  cases second with
  | reserved => exact absurd reserved new
  | free => exact Finset.erase_insert new

namespace Run

theorem zero_mem
    (run : Run size before events after) (reserved : 0 ∈ before) :
    0 ∈ after := by
  induction run with
  | nil => exact reserved
  | cons step _ inductionHypothesis =>
      exact inductionHypothesis (step.zero_mem reserved)

theorem append_iff
    {events' : List Event} :
    Run size before (events ++ events') after ↔
      ∃ middle, Run size before events middle ∧
        Run size middle events' after := by
  constructor
  · intro run
    induction events generalizing before with
    | nil => exact ⟨before, .nil, run⟩
    | cons event events inductionHypothesis =>
        cases run with
        | cons step rest =>
            obtain ⟨middle, first, second⟩ := inductionHypothesis rest
            exact ⟨middle, .cons step first, second⟩
  · rintro ⟨middle, first, second⟩
    induction first with
    | nil => exact second
    | cons step _ inductionHypothesis =>
        exact .cons step (inductionHypothesis second)

/-- A number stays taken until it is given back. -/
theorem mem_of_not_freed
    (run : Run size before events after) (taken : number ∈ before)
    (kept : .free number ∉ events) : number ∈ after := by
  induction run with
  | nil => exact taken
  | cons step _ inductionHypothesis =>
      refine inductionHypothesis (step.mem_of_ne_free taken ?_) ?_
      · rintro rfl
        exact kept List.mem_cons_self
      · exact fun later => kept (List.mem_cons_of_mem _ later)

/-- Between two calls that hand out the same number it is given back. -/
theorem freed_between
    {earlier between later : List Event}
    (run : Run size before (earlier ++ .alloc (some number) ::
      (between ++ .alloc (some number) :: later)) after) :
    .free number ∈ between := by
  obtain ⟨_, _, run⟩ := append_iff.mp run
  cases run with
  | cons first run =>
      obtain ⟨middle, run, rest⟩ := append_iff.mp run
      cases rest with
      | cons second _ =>
          obtain ⟨_, _, rfl⟩ := first.alloc_iff
          by_contra kept
          exact second.alloc_iff.2.1
            (run.mem_of_not_freed (Finset.mem_insert_self _ _) kept)

end Run

end Allocator
end Library
