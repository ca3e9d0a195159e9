import Mathlib.Algebra.BigOperators.Ring.Finset
import Mathlib.Data.Fintype.Card

/-!
# Counting entries of a finite table

How the number of table entries with a property changes when one entry is
overwritten, and how many members of a set are still to be visited.
-/

namespace Library

variable {ι : Type*} {α : Type*} [Fintype ι]

/-- Number of table entries with a property. -/
def countEntries (table : ι → α) (property : α → Prop)
    [DecidablePred property] : Nat :=
  (Finset.univ.filter fun index => property (table index)).card

variable (table : ι → α) (property : α → Prop) [DecidablePred property]

/-- Overwriting one entry removes the old value's contribution to the count
and adds the new one's. -/
theorem countEntries_update [DecidableEq ι] (index : ι) (value : α) :
    countEntries (Function.update table index value) property +
        (if property (table index) then 1 else 0) =
      countEntries table property + if property value then 1 else 0 := by
  unfold countEntries
  rw [Finset.card_filter, Finset.card_filter,
    ← Finset.add_sum_erase _ _ (Finset.mem_univ index),
    ← Finset.add_sum_erase Finset.univ
      (fun other => if property (table other) then 1 else 0)
      (Finset.mem_univ index)]
  have others : ∑ other ∈ Finset.univ.erase index,
        (if property (Function.update table index value other) then 1 else 0) =
      ∑ other ∈ Finset.univ.erase index,
        if property (table other) then 1 else 0 := by
    apply Finset.sum_congr rfl
    intro other member
    rw [Function.update_of_ne (Finset.ne_of_mem_erase member)]
  rw [others, Function.update_self]
  omega

/-- A table has no more entries with a property than entries. -/
theorem countEntries_le_card :
    countEntries table property ≤ Fintype.card ι :=
  Finset.card_le_univ _

/-- The count is positive exactly when some entry has the property. -/
theorem countEntries_pos :
    0 < countEntries table property ↔ ∃ index, property (table index) := by
  simp [countEntries, Finset.card_pos, Finset.filter_nonempty_iff]

/-- The count is zero exactly when no entry has the property. -/
theorem countEntries_eq_zero :
    countEntries table property = 0 ↔ ∀ index, ¬property (table index) := by
  simp [countEntries, Finset.filter_eq_empty_iff]

/-- Members that are visited need not be visited any more. -/
theorem card_sdiff_union_add
    {β : Type*} [DecidableEq β] {goal seen more : Finset β}
    (inside : more ⊆ goal) :
    (goal \ (seen ∪ more)).card + (more \ seen).card =
      (goal \ seen).card := by
  have apart : Disjoint (goal \ (seen ∪ more)) (more \ seen) := by
    rw [Finset.disjoint_left]
    intro member outside new
    exact (Finset.mem_sdiff.mp outside).2
      (Finset.mem_union_right _ (Finset.mem_sdiff.mp new).1)
  rw [← Finset.card_union_of_disjoint apart]
  congr 1
  ext member
  have inGoal : member ∈ more → member ∈ goal := fun new => inside new
  simp only [Finset.mem_sdiff, Finset.mem_union]
  tauto

end Library
