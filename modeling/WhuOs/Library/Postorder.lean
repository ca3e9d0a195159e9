import Mathlib.Data.List.Nodup
import WhuOs.Library.Forest

/-!
# Walks through whole trees

A walk in postorder visits all blocks below an entry of a forest, each after
what is below it.  In a tree whose places hold different blocks it visits every
block once.
-/

namespace Library
namespace Forest

variable {β : Type*} [DecidableEq β] {size : Nat}
variable {null : β} {child child' : β → Fin size → β}

/-- The blocks a block has entries for. -/
def children (null : β) (child : β → Fin size → β) (block : β) : List β :=
  ((List.finRange size).filter (child block · ≠ null)).map (child block)

/-- The blocks below an entry, each after what is below it. -/
def postorder (null : β) (child : β → Fin size → β) : Nat → β → List β
  | 0, entry => [entry]
  | level + 1, entry =>
      (children null child entry).flatMap (postorder null child level) ++
        [entry]

/-- The walk goes through the entries of a block in their order. -/
theorem postorder_succ (level : Nat) (entry : β) :
    postorder null child (level + 1) entry =
      (List.finRange size).flatMap (fun index =>
        if child entry index = null then []
        else postorder null child level (child entry index)) ++ [entry] := by
  rw [postorder, children, List.flatMap_map]
  congr 1
  induction List.finRange size with
  | nil => rfl
  | cons index rest inductionHypothesis =>
      rw [List.flatMap_cons, ← inductionHypothesis]
      by_cases missing : child entry index = null
      · simp [missing]
      · simp [missing]

theorem mem_children {block entry : β} :
    entry ∈ children null child block ↔
      entry ≠ null ∧ ∃ index, child block index = entry := by
  unfold children
  rw [List.mem_map]
  constructor
  · rintro ⟨index, member, rfl⟩
    rw [List.mem_filter, decide_eq_true_eq] at member
    exact ⟨member.2, index, rfl⟩
  · rintro ⟨present, index, rfl⟩
    refine ⟨index, List.mem_filter.mpr ⟨List.mem_finRange index, ?_⟩, rfl⟩
    exact decide_eq_true present

/-- A walk visits the blocks at the ends of all paths. -/
theorem mem_postorder
    {level : Nat} {entry block : β} (present : entry ≠ null) :
    block ∈ postorder null child level entry ↔
      block ≠ null ∧ ∃ path, path.length ≤ level ∧
        value null child entry path = block := by
  induction level generalizing entry with
  | zero =>
      rw [postorder, List.mem_singleton]
      constructor
      · rintro rfl
        exact ⟨present, [], le_rfl, rfl⟩
      · rintro ⟨_, path, short, rfl⟩
        rw [List.length_eq_zero_iff.mp (Nat.le_zero.mp short), value_nil]
  | succ level inductionHypothesis =>
      rw [postorder, List.mem_append, List.mem_flatMap, List.mem_singleton]
      constructor
      · rintro (⟨next, isChild, visited⟩ | rfl)
        · rcases mem_children.mp isChild with ⟨nextPresent, index, rfl⟩
          rcases (inductionHypothesis nextPresent).mp visited with
            ⟨notNull, path, short, same⟩
          refine ⟨notNull, index :: path, Nat.succ_le_succ short, ?_⟩
          rw [value_cons present]
          exact same
        · exact ⟨present, [], Nat.zero_le _, rfl⟩
      · rintro ⟨notNull, path, short, rfl⟩
        cases path with
        | nil => exact Or.inr rfl
        | cons index rest =>
            have nextPresent : child entry index ≠ null := by
              intro missing
              rw [value_cons present, missing, value_null] at notNull
              exact notNull rfl
            refine Or.inl ⟨child entry index,
              mem_children.mpr ⟨nextPresent, index, rfl⟩, ?_⟩
            exact (inductionHypothesis nextPresent).mpr ⟨notNull, rest,
              Nat.le_of_succ_le_succ short,
              (value_cons present index rest).symm⟩

/-- The places below an entry hold different blocks. -/
def Distinct (null : β) (child : β → Fin size → β) (level : Nat) (entry : β) :
    Prop :=
  ∀ path path', path.length ≤ level → path'.length ≤ level →
    value null child entry path ≠ null →
    value null child entry path = value null child entry path' → path = path'

theorem Distinct.below
    {level : Nat} {entry : β} (distinct : Distinct null child (level + 1) entry)
    (present : entry ≠ null) (index : Fin size) :
    Distinct null child level (child entry index) := by
  intro path path' short short' notNull same
  have whole := distinct (index :: path) (index :: path')
    (Nat.succ_le_succ short) (Nat.succ_le_succ short')
  rw [value_cons present, value_cons present] at whole
  exact (List.cons.inj (whole notNull same)).2

/-- A walk through a tree whose places hold different blocks visits every block
once. -/
theorem nodup_postorder
    {level : Nat} {entry : β} (present : entry ≠ null)
    (distinct : Distinct null child level entry) :
    (postorder null child level entry).Nodup := by
  induction level generalizing entry with
  | zero => exact List.nodup_singleton entry
  | succ level inductionHypothesis =>
      have once : ∀ index index', child entry index ≠ null →
          child entry index = child entry index' → index = index' := by
        intro index index' notNull same
        have equal := distinct [index] [index'] (by simp) (by simp)
        rw [value_cons present, value_cons present] at equal
        exact (List.cons.inj (equal notNull same)).1
      rw [postorder, List.nodup_append]
      refine ⟨List.nodup_flatMap.mpr ⟨?_, ?_⟩, List.nodup_singleton entry, ?_⟩
      · intro next isChild
        rcases mem_children.mp isChild with ⟨nextPresent, index, rfl⟩
        exact inductionHypothesis nextPresent (distinct.below present index)
      · -- trees below different entries share no block
        refine List.pairwise_map.mpr (List.Pairwise.imp_of_mem ?_
          ((List.nodup_finRange size).filter _))
        intro index index' member member' differ block visited visited'
        rw [List.mem_filter, decide_eq_true_eq] at member member'
        rcases (mem_postorder member.2).mp visited with
          ⟨notNull, path, short, rfl⟩
        rcases (mem_postorder member'.2).mp visited' with
          ⟨_, path', short', same⟩
        have equal := distinct (index :: path) (index' :: path')
          (Nat.succ_le_succ short) (Nat.succ_le_succ short')
        rw [value_cons present, value_cons present] at equal
        exact differ (List.cons.inj (equal notNull same.symm)).1
      · -- the entry itself is not below itself
        intro block visited other isEntry same
        rcases List.mem_flatMap.mp visited with ⟨next, isChild, visited⟩
        rcases mem_children.mp isChild with ⟨nextPresent, index, rfl⟩
        rcases (mem_postorder nextPresent).mp visited with
          ⟨_, path, short, isBlock⟩
        rw [List.mem_singleton] at isEntry
        have equal := distinct [] (index :: path) (Nat.zero_le _)
          (Nat.succ_le_succ short) present
        rw [value_cons present, value_nil, isBlock, same, isEntry] at equal
        cases equal rfl

/-- A walk depends on the entries of the blocks that it visits only. -/
theorem postorder_congr
    {level : Nat} {entry : β}
    (same : ∀ block ∈ postorder null child level entry, ∀ index,
      child' block index = child block index) :
    postorder null child' level entry = postorder null child level entry := by
  induction level generalizing entry with
  | zero => rfl
  | succ level inductionHypothesis =>
      have here : child' entry = child entry := by
        funext index
        apply same
        rw [postorder]
        exact List.mem_append_right _ (List.mem_singleton_self entry)
      have sameChildren :
          children null child' entry = children null child entry := by
        unfold children
        rw [here]
      rw [postorder, postorder, sameChildren]
      congr 1
      apply List.flatMap_congr
      intro next isChild
      apply inductionHypothesis
      intro block visited
      apply same
      rw [postorder]
      exact List.mem_append_left _
        (List.mem_flatMap.mpr ⟨next, isChild, visited⟩)

end Forest
end Library
