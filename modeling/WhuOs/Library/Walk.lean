import WhuOs.Library.Forest

/-!
# Walks that stop at a hole

A walk visits the blocks below an entry of a forest depth first, each after what
is below it, and follows the entries of a block up to the first empty one.  It
visits the whole forest exactly when no block has an entry behind an empty one.
-/

namespace Library
namespace Forest

variable {β ρ : Type*} [DecidableEq β] {size : Nat}
variable {null : β} {child : β → Fin size → β}

/-! ## Paths of a walk -/

/-- The entries of a block up to the first empty one. -/
def entriesFrom (null : β) (child : β → Fin size → β) (block : β) : List β :=
  ((List.finRange size).map (child block)).takeWhile (· ≠ null)

/-- The blocks below an entry in the order in which a walk leaves them. -/
def walk (null : β) (child : β → Fin size → β) (entry : β) : Nat → List β
  | 0 => [entry]
  | level + 1 =>
      ((entriesFrom null child entry).flatMap fun next =>
        walk null child next level) ++ [entry]

/-- A path on which no entry comes after an empty one. -/
def Walked (null : β) (child : β → Fin size → β) : β → List (Fin size) → Prop
  | _, [] => True
  | entry, index :: rest =>
      (∀ other ≤ index, child entry other ≠ null) ∧
        Walked null child (child entry index) rest

theorem mem_entriesFrom {block entry : β} :
    entry ∈ entriesFrom null child block ↔
      ∃ index, (∀ other ≤ index, child block other ≠ null) ∧
        child block index = entry := by
  unfold entriesFrom
  rw [List.takeWhile_eq_take_findIdx_not, List.mem_take_iff_getElem]
  constructor
  · rintro ⟨place, bound, rfl⟩
    rw [Nat.lt_min] at bound
    obtain ⟨before, inside⟩ := bound
    have small : place < size := by
      rwa [List.length_map, List.length_finRange] at inside
    refine ⟨⟨place, small⟩, fun other most => ?_, ?_⟩
    · have found := List.not_of_lt_findIdx
        (Nat.lt_of_le_of_lt most before)
      simpa using found
    · rw [List.getElem_map, List.getElem_finRange]
      rfl
  · rintro ⟨index, early, rfl⟩
    have inside : index.val <
        ((List.finRange size).map (child block)).length := by
      rw [List.length_map, List.length_finRange]
      exact index.isLt
    refine ⟨index.val, Nat.lt_min.mpr ⟨?_, inside⟩, ?_⟩
    · refine List.lt_findIdx_of_not inside fun place most => ?_
      have here := early ⟨place, Nat.lt_of_le_of_lt most index.isLt⟩ most
      simpa using here
    · rw [List.getElem_map, List.getElem_finRange]
      rfl

/-- There is a block at the end of a path of a walk. -/
theorem walked_value
    {entry : β} {path : List (Fin size)} (present : entry ≠ null)
    (walked : Walked null child entry path) :
    value null child entry path ≠ null := by
  induction path generalizing entry with
  | nil => exact present
  | cons index rest inductionHypothesis =>
      obtain ⟨early, walked⟩ := walked
      rw [value_cons present]
      exact inductionHypothesis (early index (Nat.le_refl _)) walked

/-- A walk visits the blocks at the ends of its paths. -/
theorem mem_walk
    {level : Nat} {entry block : β} (present : entry ≠ null) :
    block ∈ walk null child entry level ↔
      ∃ path, path.length ≤ level ∧ Walked null child entry path ∧
        value null child entry path = block := by
  induction level generalizing entry with
  | zero =>
      rw [walk, List.mem_singleton]
      constructor
      · rintro rfl
        exact ⟨[], le_rfl, trivial, rfl⟩
      · rintro ⟨path, short, _, rfl⟩
        rw [List.length_eq_zero_iff.mp (Nat.le_zero.mp short), value_nil]
  | succ level inductionHypothesis =>
      rw [walk, List.mem_append, List.mem_flatMap, List.mem_singleton]
      constructor
      · rintro (⟨next, entryOf, visited⟩ | rfl)
        · obtain ⟨index, early, rfl⟩ := mem_entriesFrom.mp entryOf
          obtain ⟨path, short, walked, rfl⟩ :=
            (inductionHypothesis (early index (Nat.le_refl _))).mp visited
          exact ⟨index :: path, Nat.succ_le_succ short, ⟨early, walked⟩,
            value_cons present index path⟩
        · exact ⟨[], Nat.zero_le _, trivial, rfl⟩
      · rintro ⟨path, short, walked, rfl⟩
        cases path with
        | nil => exact Or.inr rfl
        | cons index rest =>
            obtain ⟨early, walked⟩ := walked
            refine Or.inl ⟨child entry index,
              mem_entriesFrom.mpr ⟨index, early, rfl⟩, ?_⟩
            exact (inductionHypothesis (early index (Nat.le_refl _))).mpr
              ⟨rest, Nat.le_of_succ_le_succ short, walked,
                (value_cons present index rest).symm⟩

theorem walked_concat
    {entry : β} (present : entry ≠ null) (path : List (Fin size))
    (index : Fin size) :
    Walked null child entry (path ++ [index]) ↔
      Walked null child entry path ∧ ∀ other ≤ index,
        child (value null child entry path) other ≠ null := by
  induction path generalizing entry with
  | nil =>
      rw [List.nil_append, Walked, Walked, value_nil]
      tauto
  | cons first rest inductionHypothesis =>
      rw [List.cons_append, Walked, Walked, value_cons present, and_assoc]
      refine and_congr_right fun early => ?_
      exact inductionHypothesis (early first (Nat.le_refl _))

/-! ## Forests without holes -/

/-- No block of a forest has an entry behind an empty one. -/
def Dense (null : β) (height : ρ → Nat) (root : ρ → β)
    (child : β → Fin size → β) : Prop :=
  ∀ r path index, path.length < height r →
    value null child (root r) path ≠ null →
    child (value null child (root r) path) index ≠ null →
    ∀ other ≤ index, child (value null child (root r) path) other ≠ null

variable {height : ρ → Nat} {root : ρ → β} {marked : β → Prop}

theorem dense_iff_walked :
    Dense null height root child ↔ ∀ r path, path.length ≤ height r →
      value null child (root r) path ≠ null →
      Walked null child (root r) path := by
  constructor
  · intro dense r path
    induction path using List.reverseRecOn with
    | nil => exact fun _ _ => trivial
    | append_singleton path index inductionHypothesis =>
        intro bound present
        rw [List.length_append, List.length_singleton] at bound
        have notRoot : root r ≠ null := by
          intro missing
          rw [missing, value_null] at present
          exact present rfl
        rw [value_concat] at present
        have above : value null child (root r) path ≠ null := by
          intro missing
          rw [if_pos missing] at present
          exact present rfl
        rw [if_neg above] at present
        exact (walked_concat notRoot path index).mpr
          ⟨inductionHypothesis (Nat.le_of_succ_le bound) above,
            dense r path index bound above present⟩
  · intro walked r path index short above present
    have notRoot : root r ≠ null := by
      intro missing
      rw [missing, value_null] at above
      exact above rfl
    have whole := walked r (path ++ [index])
      (by rw [List.length_append, List.length_singleton]; exact short)
      (by rw [value_concat, if_neg above]; exact present)
    exact ((walked_concat notRoot path index).mp whole).2

/-- The walks from the roots of a forest visit all its blocks exactly when no
block has an entry behind an empty one. -/
theorem Sound.walk_complete_iff
    (sound : Sound null height root child marked) :
    (∀ r path, path.length ≤ height r →
      value null child (root r) path ≠ null →
      ∃ r', root r' ≠ null ∧ value null child (root r) path ∈
        walk null child (root r') (height r')) ↔
      Dense null height root child := by
  rw [dense_iff_walked]
  constructor
  · intro complete r path bound present
    obtain ⟨r', notRoot, visited⟩ := complete r path bound present
    obtain ⟨path', bound', walked, same⟩ := (mem_walk notRoot).mp visited
    obtain ⟨rfl, rfl⟩ := sound.unique r r' path path' bound bound' present
      same.symm
    exact walked
  · intro walked r path bound present
    have notRoot : root r ≠ null := by
      intro missing
      rw [missing, value_null] at present
      exact present rfl
    exact ⟨r, notRoot, (mem_walk notRoot).mpr
      ⟨path, bound, walked r path bound present, rfl⟩⟩

end Forest
end Library
