import Mathlib.Data.Fin.Basic

/-!
# Round robin

An arbiter looks at the slots of a ring in turn, starting after the slot it
picked last, and picks the first one that is ready.  Between two picks of a slot
it picks every other slot that is ready all the time.
-/

namespace Library
namespace RoundRobin

variable {n : Nat} {start slot other : Fin (n + 1)}

/-- The number of slots before a slot in a round from `start`. -/
def ahead (start slot : Fin (n + 1)) : Nat :=
  if start.val ≤ slot.val then slot.val - start.val
  else n + 1 + slot.val - start.val

theorem next_val (slot : Fin (n + 1)) :
    (slot + 1).val = if slot.val = n then 0 else slot.val + 1 := by
  rw [Fin.val_add_one]
  simp only [Fin.ext_iff, Fin.val_last]

theorem ahead_injective (same : ahead start slot = ahead start other) :
    slot = other := by
  have bound := slot.isLt
  have bound' := other.isLt
  have bound'' := start.isLt
  unfold ahead at same
  apply Fin.ext
  split at same <;> split at same <;> omega

/-- In the round after a pick, the slot that was picked comes last. -/
theorem ahead_next_self (differs : other ≠ slot) :
    ahead (slot + 1) other < ahead (slot + 1) slot := by
  have bound := other.isLt
  have differs' := Fin.val_ne_of_ne differs
  unfold ahead
  rw [next_val]
  split <;> split <;> split <;> omega

/-- After a pick, the slots behind it come in the same order as before. -/
theorem ahead_next
    (picked : Fin (n + 1)) (later : ahead start picked < ahead start slot)
    (order : ahead start slot < ahead start other) :
    ahead (picked + 1) slot < ahead (picked + 1) other := by
  have bound := slot.isLt
  have bound' := other.isLt
  have bound'' := picked.isLt
  have bound''' := start.isLt
  unfold ahead at later order ⊢
  rw [next_val]
  split_ifs at * <;> omega

/-- The first ready slot of a round. -/
structure Picks (ready : Fin (n + 1) → Prop) (start slot : Fin (n + 1)) :
    Prop where
  isReady : ready slot
  first : ∀ other, ready other → ahead start slot ≤ ahead start other

/-- A slot that is ready and not picked has fewer slots before it in the next
round. -/
theorem Picks.ahead_lt
    {ready : Fin (n + 1) → Prop} (picks : Picks ready start slot)
    (isReady : ready other) (differs : other ≠ slot) :
    ahead (slot + 1) other < ahead start other := by
  have bound := slot.isLt
  have bound' := other.isLt
  have bound'' := start.isLt
  have differs' := Fin.val_ne_of_ne differs
  have earlier := picks.first other isReady
  unfold ahead at earlier ⊢
  rw [next_val]
  split_ifs at * <;> omega

theorem ahead_le (start slot : Fin (n + 1)) : ahead start slot ≤ n := by
  have bound := slot.isLt
  have bound' := start.isLt
  unfold ahead
  split <;> omega

/-- Rounds that follow each other.  The slots that are ready may be others in
each round. -/
structure Rounds (ready : Nat → Fin (n + 1) → Prop)
    (start : Nat → Fin (n + 1)) (pick : Nat → Option (Fin (n + 1))) :
    Prop where
  winner : ∀ round slot, pick round = some slot →
    Picks (ready round) (start round) slot ∧ start (round + 1) = slot + 1
  idle : ∀ round, pick round = none →
    (∀ slot, ¬ready round slot) ∧ start (round + 1) = start round

/-- Between two picks of a slot comes a pick of every other slot that is ready
in all rounds after the first one. -/
theorem Rounds.picked_between
    {ready : Nat → Fin (n + 1) → Prop} {start : Nat → Fin (n + 1)}
    {pick : Nat → Option (Fin (n + 1))} (rounds : Rounds ready start pick)
    {first second : Nat} (before : first < second)
    (picked : pick first = some slot) (again : pick second = some slot)
    (differs : other ≠ slot)
    (always : ∀ round, first < round → round ≤ second → ready round other) :
    ∃ round, first < round ∧ round < second ∧ pick round = some other := by
  by_contra notPicked
  simp only [not_exists, not_and] at notPicked
  -- the other slot stays ahead of the one that was picked
  have stays : ∀ round, first < round → round ≤ second →
      ahead (start round) other < ahead (start round) slot := by
    intro round after atMost
    induction round, after using Nat.le_induction with
    | base =>
        rw [(rounds.winner first slot picked).2]
        exact ahead_next_self differs
    | succ round after inductionHypothesis =>
        have order := inductionHypothesis (Nat.le_of_succ_le atMost)
        have isReady := always round after (Nat.le_of_succ_le atMost)
        cases outcome : pick round with
        | none => exact absurd isReady ((rounds.idle round outcome).1 other)
        | some winner =>
            obtain ⟨picks, next⟩ := rounds.winner round winner outcome
            have notOther : winner ≠ other := by
              rintro rfl
              exact notPicked round after atMost outcome
            have earlier := Nat.lt_of_le_of_ne (picks.first other isReady)
              fun same => notOther (ahead_injective same)
            rw [next]
            exact ahead_next winner earlier order
  have order := stays second before (Nat.le_refl second)
  have wins := (rounds.winner second slot again).1.first other
    (always second before (Nat.le_refl second))
  exact Nat.not_le_of_lt order wins

end RoundRobin
end Library
