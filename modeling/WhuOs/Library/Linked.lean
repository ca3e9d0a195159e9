import Mathlib.Data.List.Basic

/-!
# Singly linked lists

A list in a memory is given by its head and the links of its nodes.  The list of
visited nodes describes it completely.
-/

namespace Library

variable {α : Type*} {null head : α} {next next' : α → α} {nodes : List α}

/-- Following the links from a head visits some nodes and then ends. -/
def Linked (null : α) (next : α → α) : (head : α) → (nodes : List α) → Prop
  | head, [] => head = null
  | head, node :: rest =>
      head = node ∧ node ≠ null ∧ Linked null next (next node) rest

instance decidableLinked
    [DecidableEq α] (null : α) (next : α → α) (head : α) :
    (nodes : List α) → Decidable (Linked null next head nodes)
  | [] => inferInstanceAs (Decidable (head = null))
  | node :: rest =>
      have := decidableLinked null next (next node) rest
      inferInstanceAs (Decidable (head = node ∧ node ≠ null ∧
        Linked null next (next node) rest))

namespace Linked

/-- Only the links of the nodes matter. -/
theorem congr
    (linked : Linked null next head nodes)
    (same : ∀ node ∈ nodes, next' node = next node) :
    Linked null next' head nodes := by
  induction nodes generalizing head with
  | nil => exact linked
  | cons node rest inductionHypothesis =>
      obtain ⟨first, notNull, tail⟩ := linked
      refine ⟨first, notNull, ?_⟩
      rw [same node List.mem_cons_self]
      exact inductionHypothesis tail fun other member =>
        same other (List.mem_cons_of_mem _ member)

theorem ne_null
    (linked : Linked null next head nodes) {node : α}
    (member : node ∈ nodes) : node ≠ null := by
  induction nodes generalizing head with
  | nil => cases member
  | cons first rest inductionHypothesis =>
      obtain ⟨_, notNull, tail⟩ := linked
      rcases List.mem_cons.mp member with rfl | member
      · exact notNull
      · exact inductionHypothesis tail member

/-- The links determine the nodes. -/
theorem eq_of_linked
    {nodes' : List α} (linked : Linked null next head nodes)
    (linked' : Linked null next head nodes') : nodes = nodes' := by
  induction nodes generalizing head nodes' with
  | nil =>
      cases nodes' with
      | nil => rfl
      | cons node rest => exact absurd (linked'.1.symm.trans linked) linked'.2.1
  | cons node rest inductionHypothesis =>
      obtain ⟨rfl, notNull, tail⟩ := linked
      cases nodes' with
      | nil => exact absurd linked' notNull
      | cons node' rest' =>
          obtain ⟨rfl, _, tail'⟩ := linked'
          rw [inductionHypothesis tail tail']

end Linked
end Library
