import Mathlib.Data.List.Basic
import Mathlib.Logic.Function.Basic

/-!
# Copies that follow each other

A memory is copied cell by cell: each copy reads its source when it is its
turn.  If no copy reads or writes what an earlier one wrote, the cells end up
as if all had been copied at once.
-/

namespace Library

variable {α β : Type*} [DecidableEq α]

/-- Copy cells one after the other, each given by its target and source. -/
def copyAll (memory : α → β) : (copies : List (α × α)) → α → β
  | [] => memory
  | (target, source) :: rest =>
      copyAll (Function.update memory target (memory source)) rest

/-- No copy reads or writes a cell that an earlier one wrote. -/
def Ordered (copies : List (α × α)) : Prop :=
  copies.Pairwise fun earlier later =>
    earlier.1 ≠ later.1 ∧ earlier.1 ≠ later.2

variable {memory : α → β} {copies : List (α × α)}

/-- Other cells do not change. -/
theorem copyAll_of_not_mem
    {cell : α} (outside : ∀ copy ∈ copies, copy.1 ≠ cell) :
    copyAll memory copies cell = memory cell := by
  induction copies generalizing memory with
  | nil => rfl
  | cons copy rest inductionHypothesis =>
      have differs : copy.1 ≠ cell := outside copy List.mem_cons_self
      calc
        copyAll memory (copy :: rest) cell =
            Function.update memory copy.1 (memory copy.2) cell :=
          inductionHypothesis fun later member =>
            outside later (List.mem_cons_of_mem _ member)
        _ = memory cell := Function.update_of_ne differs.symm _ _

/-- Each target gets what its source held at the start. -/
theorem copyAll_of_mem
    (ordered : Ordered copies) {copy : α × α} (member : copy ∈ copies) :
    copyAll memory copies copy.1 = memory copy.2 := by
  induction copies generalizing memory with
  | nil => exact absurd member List.not_mem_nil
  | cons first rest inductionHypothesis =>
      obtain ⟨apart, ordered⟩ := List.pairwise_cons.mp ordered
      rcases List.mem_cons.mp member with rfl | later
      · calc
          copyAll memory (copy :: rest) copy.1 =
              Function.update memory copy.1 (memory copy.2) copy.1 :=
            copyAll_of_not_mem fun later member => (apart later member).1.symm
          _ = memory copy.2 := Function.update_self _ _ _
      · calc
          copyAll memory (first :: rest) copy.1 =
              Function.update memory first.1 (memory first.2) copy.2 :=
            inductionHypothesis ordered later
          _ = memory copy.2 :=
            Function.update_of_ne (apart copy later).2.symm _ _

end Library
