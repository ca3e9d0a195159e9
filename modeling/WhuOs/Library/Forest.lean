import Mathlib.Logic.Function.Basic
import Mathlib.Data.List.Infix

/-!
# Forests of blocks

Roots hold the numbers of blocks, and blocks hold the numbers of further blocks
up to a height that depends on the root.  In a sound forest every block that
occurs is marked as taken and occurs at one place only.  Pointers may be
dropped, and blocks that were not taken may be added where none was.
-/

namespace Library
namespace Forest

variable {β : Type*} {ι : Type*} {ρ : Type*} [DecidableEq β]
variable {null : β}

/-- The block at the end of a path below an entry, or `null` if a block on the
path is missing. -/
def value (null : β) (child : β → ι → β) (entry : β) : List ι → β
  | [] => entry
  | index :: rest =>
      if entry = null then null else value null child (child entry index) rest

variable {child child' child'' : β → ι → β}

@[simp] theorem value_nil (entry : β) : value null child entry [] = entry :=
  rfl

theorem value_cons
    {entry : β} (present : entry ≠ null) (index : ι) (rest : List ι) :
    value null child entry (index :: rest) =
      value null child (child entry index) rest :=
  if_neg present

/-- Nothing is below a missing entry. -/
@[simp] theorem value_null (path : List ι) :
    value null child null path = null := by
  cases path with
  | nil => rfl
  | cons index rest => exact if_pos rfl

/-- A path depends on the pointers along it only. -/
theorem value_congr
    {entry : β} {path : List ι}
    (same : ∀ before index after, path = before ++ index :: after →
      value null child entry before ≠ null →
      child' (value null child entry before) index =
        child (value null child entry before) index) :
    value null child' entry path = value null child entry path := by
  induction path generalizing entry with
  | nil => rfl
  | cons index rest inductionHypothesis =>
      by_cases missing : entry = null
      · rw [missing, value_null, value_null]
      · have first := same [] index rest rfl missing
        rw [value_nil] at first
        rw [value_cons missing, value_cons missing, first]
        apply inductionHypothesis
        intro before next after split present
        have below := same (index :: before) next after (by rw [split]; rfl)
        rw [value_cons missing] at below
        exact below present

/-- The number of blocks missing along a path, its end included. -/
def missing (null : β) (child : β → ι → β) (entry : β) : List ι → Nat
  | [] => if entry = null then 1 else 0
  | index :: rest =>
      if entry = null then rest.length + 2
      else missing null child (child entry index) rest

theorem missing_cons
    {entry : β} (present : entry ≠ null) (index : ι) (rest : List ι) :
    missing null child entry (index :: rest) =
      missing null child (child entry index) rest :=
  if_neg present

theorem missing_null (path : List ι) :
    missing null child null path = path.length + 1 := by
  cases path with
  | nil => exact if_pos rfl
  | cons index rest => exact if_pos rfl

/-- The missing blocks are the prefixes of the path that lead nowhere. -/
theorem missing_eq_length
    (entry : β) (path : List ι) :
    missing null child entry path =
      (path.inits.filter fun way =>
        value null child entry way = null).length := by
  induction path generalizing entry with
  | nil =>
      by_cases absent : entry = null
      · simp [missing, absent]
      · simp [missing, absent]
  | cons index rest inductionHypothesis =>
      by_cases absent : entry = null
      · subst absent
        rw [missing_null, List.filter_eq_self.mpr (by simp),
          List.length_inits]
      · rw [missing_cons absent, inductionHypothesis, List.inits_cons,
          List.filter_cons, List.filter_map]
        simp only [value_nil, absent, decide_false, Bool.false_eq_true,
          if_false, List.length_map]
        congr 1
        apply List.filter_congr
        intro way member
        simp only [Function.comp_apply, value_cons absent]

/-- Every block of the forest is marked and has one place. -/
structure Sound (null : β) (height : ρ → Nat) (root : ρ → β)
    (child : β → ι → β) (marked : β → Prop) : Prop where
  marked : ∀ r path, path.length ≤ height r →
    value null child (root r) path ≠ null →
    marked (value null child (root r) path)
  unique : ∀ r r' path path', path.length ≤ height r →
    path'.length ≤ height r' → value null child (root r) path ≠ null →
    value null child (root r) path = value null child (root r') path' →
    r = r' ∧ path = path'

variable {height : ρ → Nat} {root root' : ρ → β}
variable {marked marked' marked'' : β → Prop}

/-- A forest stays sound when places are cleared and no remaining block loses
its mark. -/
theorem Sound.restrict
    (sound : Sound null height root child marked)
    (fewer : ∀ r path, path.length ≤ height r →
      value null child' (root' r) path = value null child (root r) path ∨
        value null child' (root' r) path = null)
    (kept : ∀ r path, path.length ≤ height r →
      value null child' (root' r) path ≠ null →
      marked (value null child' (root' r) path) →
      marked' (value null child' (root' r) path)) :
    Sound null height root' child' marked' := by
  constructor
  · intro r path bound present
    have same := (fewer r path bound).resolve_right present
    apply kept r path bound present
    rw [same] at present ⊢
    exact sound.marked r path bound present
  · intro r r' path path' bound bound' present equal
    have same := (fewer r path bound).resolve_right present
    have present' : value null child' (root' r') path' ≠ null := by
      rwa [← equal]
    have same' := (fewer r' path' bound').resolve_right present'
    rw [same] at present
    rw [same, same'] at equal
    exact sound.unique r r' path path' bound bound' present equal

/-- Blocks that were not marked are added where none was. -/
structure Grows (null : β) (height : ρ → Nat) (root : ρ → β)
    (child : β → ι → β) (marked : β → Prop) (root' : ρ → β)
    (child' : β → ι → β) (marked' : β → Prop) : Prop where
  kept : ∀ r path, path.length ≤ height r →
    value null child' (root' r) path = value null child (root r) path ∨
      (value null child (root r) path = null ∧
        ¬marked (value null child' (root' r) path) ∧
        marked' (value null child' (root' r) path))
  distinct : ∀ r r' path path', path.length ≤ height r →
    path'.length ≤ height r' → value null child (root r) path = null →
    value null child (root r') path' = null →
    value null child' (root' r) path ≠ null →
    value null child' (root' r) path = value null child' (root' r') path' →
    r = r' ∧ path = path'
  marks : ∀ block, marked block → marked' block

theorem Grows.refl : Grows null height root child marked root child marked :=
  ⟨fun _ _ _ => Or.inl rfl, fun _ _ _ _ _ _ missing _ present _ =>
    absurd missing present, fun _ holds => holds⟩

/-- A sound forest stays sound while it grows. -/
theorem Sound.grow
    (sound : Sound null height root child marked)
    (grows : Grows null height root child marked root' child' marked') :
    Sound null height root' child' marked' := by
  constructor
  · intro r path bound present
    rcases grows.kept r path bound with same | ⟨_, _, isMarked⟩
    · rw [same] at present ⊢
      exact grows.marks _ (sound.marked r path bound present)
    · exact isMarked
  · intro r r' path path' bound bound' present equal
    rcases grows.kept r path bound with same | ⟨missing, fresh, _⟩
    · rcases grows.kept r' path' bound' with same' | ⟨_, fresh', _⟩
      · rw [same] at present
        rw [same, same'] at equal
        exact sound.unique r r' path path' bound bound' present equal
      · rw [same] at present equal
        rw [← equal] at fresh'
        exact absurd (sound.marked r path bound present) fresh'
    · rcases grows.kept r' path' bound' with same' | ⟨missing', _, _⟩
      · rw [equal, same'] at fresh present
        exact absurd (sound.marked r' path' bound' present) fresh
      · exact grows.distinct r r' path path' bound bound' missing missing'
          present equal

/-! ## Trees -/

/-- A forest with one root. -/
abbrev Tree (null : β) (level : Nat) (entry : β) (child : β → ι → β)
    (marked : β → Prop) : Prop :=
  Sound null (fun _ : Unit => level) (fun _ => entry) child marked

/-- Growth of a tree. -/
abbrev TreeGrows (null : β) (level : Nat) (entry : β) (child : β → ι → β)
    (marked : β → Prop) (entry' : β) (child' : β → ι → β)
    (marked' : β → Prop) : Prop :=
  Grows null (fun _ : Unit => level) (fun _ => entry) child marked
    (fun _ => entry') child' marked'

theorem Sound.tree (sound : Sound null height root child marked) (r : ρ) :
    Tree null (height r) (root r) child marked :=
  ⟨fun _ path bound present => sound.marked r path bound present,
    fun _ _ path path' bound bound' present equal =>
      ⟨rfl, (sound.unique r r path path' bound bound' present equal).2⟩⟩

variable {level : Nat} {entry entry' : β}

theorem Tree.marked_entry
    (tree : Tree null level entry child marked) (present : entry ≠ null) :
    marked entry :=
  tree.marked () [] (Nat.zero_le _) present

theorem Tree.below
    (tree : Tree null (level + 1) entry child marked)
    (present : entry ≠ null) (index : ι) :
    Tree null level (child entry index) child marked := by
  constructor
  · intro _ path bound below
    have whole := tree.marked () (index :: path) (Nat.succ_le_succ bound)
    rw [value_cons present] at whole
    exact whole below
  · intro _ _ path path' bound bound' below equal
    have whole := tree.unique () () (index :: path) (index :: path')
      (Nat.succ_le_succ bound) (Nat.succ_le_succ bound')
    rw [value_cons present, value_cons present] at whole
    exact ⟨rfl, (List.cons.inj (whole below equal).2).2⟩

/-- The block of an entry does not occur below it. -/
theorem Tree.below_ne
    (tree : Tree null (level + 1) entry child marked)
    (present : entry ≠ null) (index : ι) (path : List ι)
    (bound : path.length ≤ level) :
    value null child (child entry index) path ≠ entry := by
  intro equal
  have unique := tree.unique () () [] (index :: path) (Nat.zero_le _)
    (Nat.succ_le_succ bound) present
  rw [value_cons present] at unique
  cases (unique equal.symm).2

/-- Blocks below different pointers of an entry differ. -/
theorem Tree.below_ne_below
    (tree : Tree null (level + 1) entry child marked)
    (present : entry ≠ null) {index index' : ι} (differ : index ≠ index')
    {path path' : List ι} (bound : path.length ≤ level)
    (bound' : path'.length ≤ level)
    (below : value null child (child entry index) path ≠ null) :
    value null child (child entry index) path ≠
      value null child (child entry index') path' := by
  intro equal
  have unique := tree.unique () () (index :: path) (index' :: path')
    (Nat.succ_le_succ bound) (Nat.succ_le_succ bound')
  rw [value_cons present, value_cons present] at unique
  exact differ (List.cons.inj (unique below equal).2).1

/-- A marked block without pointers is a tree. -/
theorem Tree.single
    (isMarked : marked entry) (empty : ∀ index, child entry index = null) :
    Tree null level entry child marked := by
  have only : ∀ path, value null child entry path ≠ null → path = [] := by
    intro path present
    cases path with
    | nil => rfl
    | cons index rest =>
        by_cases missing : entry = null
        · rw [missing, value_null] at present
          exact absurd rfl present
        · rw [value_cons missing, empty, value_null] at present
          exact absurd rfl present
  constructor
  · intro _ path bound present
    rw [only path present]
    exact isMarked
  · intro _ _ path path' bound bound' present equal
    rw [only path present, only path' (equal ▸ present)]
    exact ⟨rfl, rfl⟩

section Descend

variable [DecidableEq ι] {index : ι} {next : β}
  (tree : Tree null (level + 1) entry child marked)
  (present : entry ≠ null)
  (grows : TreeGrows null level (child entry index) child marked next
    child' marked')
  (stored : child'' entry = Function.update (child entry) index next)
  (others : ∀ block, block ≠ entry → marked' block →
    child'' block = child' block)

include tree present grows stored others

/-- What is below the pointer that was stored. -/
theorem TreeGrows.value_along
    {rest : List ι} (bound : rest.length ≤ level) :
    value null child'' entry (index :: rest) =
      value null child' next rest := by
  rw [value_cons present, stored, Function.update_self]
  apply value_congr
  intro before _ after split below
  have shorter : before.length ≤ level := by
    rw [split, List.length_append] at bound
    omega
  rcases grows.kept () before shorter with same | ⟨_, fresh, isMarked⟩
  · rw [same] at below ⊢
    rw [others]
    · exact tree.below_ne present index before shorter
    · exact grows.marks _
        ((tree.below present index).marked () before shorter below)
  · rw [others _ _ isMarked]
    intro equal
    rw [equal] at fresh
    exact fresh (Tree.marked_entry tree present)

/-- What is below the other pointers. -/
theorem TreeGrows.value_aside
    (frame : ∀ block, marked block →
      (∀ path, path.length < level →
        value null child (child entry index) path ≠ block) →
      child' block = child block)
    {index' : ι} (differ : index' ≠ index)
    {rest : List ι} (bound : rest.length ≤ level) :
    value null child'' entry (index' :: rest) =
      value null child entry (index' :: rest) := by
  rw [value_cons present, value_cons present, stored,
    Function.update_of_ne differ]
  apply value_congr
  intro before _ after split below
  have shorter : before.length < level := by
    rw [split, List.length_append, List.length_cons] at bound
    omega
  have isMarked := (tree.below present index').marked () before
    (Nat.le_of_lt shorter) below
  rw [others _ (tree.below_ne present index' before (Nat.le_of_lt shorter))
    (grows.marks _ isMarked), frame _ isMarked]
  intro path short equal
  exact tree.below_ne_below present differ (Nat.le_of_lt shorter)
    (Nat.le_of_lt short) below equal.symm

/-- A tree grows below one pointer of its entry, which is then stored. -/
theorem TreeGrows.descend
    (frame : ∀ block, marked block →
      (∀ path, path.length < level →
        value null child (child entry index) path ≠ block) →
      child' block = child block) :
    TreeGrows null (level + 1) entry child marked entry child'' marked' := by
  have along : ∀ rest, rest.length ≤ level →
      value null child'' entry (index :: rest) =
        value null child' next rest :=
    fun rest bound => TreeGrows.value_along tree present grows stored others
      bound
  have aside : ∀ index' rest, index' ≠ index → rest.length ≤ level →
      value null child'' entry (index' :: rest) =
        value null child entry (index' :: rest) :=
    fun index' rest differ bound => TreeGrows.value_aside tree present grows
      stored others frame differ bound
  constructor
  · intro _ path bound
    cases path with
    | nil => exact Or.inl rfl
    | cons index' rest =>
        have shorter : rest.length ≤ level := Nat.le_of_succ_le_succ bound
        by_cases same : index' = index
        · subst same
          rw [along rest shorter, value_cons present]
          exact grows.kept () rest shorter
        · exact Or.inl (aside index' rest same shorter)
  · intro _ _ path path' bound bound' missing missing' below equal
    cases path with
    | nil => exact absurd missing present
    | cons index₁ rest =>
        cases path' with
        | nil => exact absurd missing' present
        | cons index₂ rest' =>
            have shorter : rest.length ≤ level := Nat.le_of_succ_le_succ bound
            have shorter' : rest'.length ≤ level :=
              Nat.le_of_succ_le_succ bound'
            by_cases same : index₁ = index
            · by_cases same' : index₂ = index
              · subst same
                subst same'
                rw [along rest shorter] at below equal
                rw [along rest' shorter'] at equal
                rw [value_cons present] at missing missing'
                have unique := grows.distinct () () rest rest' shorter
                  shorter' missing missing' below equal
                exact ⟨rfl, by rw [unique.2]⟩
              · rw [equal, aside index₂ rest' same' shorter', missing']
                  at below
                exact absurd rfl below
            · rw [aside index₁ rest same shorter, missing] at below
              exact absurd rfl below
  · exact grows.marks

end Descend

/-- A block that was not marked and holds no pointers takes the place of a
missing entry and grows further. -/
theorem TreeGrows.fresh
    {block : β}
    (notNull : block ≠ null) (notMarked : ¬marked block)
    (empty : 0 < level → ∀ index, child block index = null)
    (marks : ∀ other, marked other → marked' other)
    (isMarked : marked' block)
    (grows : TreeGrows null level block child marked' block child'
      marked'') :
    TreeGrows null level null child marked block child' marked'' := by
  have only : ∀ path, path.length ≤ level → path ≠ [] →
      value null child block path = null := by
    intro path bound proper
    cases path with
    | nil => exact absurd rfl proper
    | cons index rest =>
        have positive : 0 < level := Nat.lt_of_lt_of_le (Nat.succ_pos _) bound
        rw [value_cons notNull, empty positive, value_null]
  have unmarked : ∀ path, path.length ≤ level → path ≠ [] →
      value null child' block path ≠ null →
      ¬marked' (value null child' block path) ∧
        marked'' (value null child' block path) := by
    intro path bound proper present
    rcases grows.kept () path bound with same | ⟨_, unmarked, later⟩
    · rw [same, only path bound proper] at present
      exact absurd rfl present
    · exact ⟨unmarked, later⟩
  constructor
  · intro _ path bound
    rw [value_null]
    by_cases proper : path = []
    · subst proper
      exact Or.inr ⟨rfl, notMarked, grows.marks _ isMarked⟩
    · by_cases present : value null child' block path = null
      · exact Or.inl present
      · obtain ⟨unmarked, later⟩ := unmarked path bound proper present
        exact Or.inr ⟨rfl, fun before => unmarked (marks _ before), later⟩
  · intro _ _ path path' bound bound' _ _ present equal
    by_cases proper : path = []
    · by_cases proper' : path' = []
      · rw [proper, proper']
        exact ⟨rfl, rfl⟩
      · subst proper
        rw [value_nil] at equal
        rw [equal] at present
        have := (unmarked path' bound' proper' present).1
        rw [← equal] at this
        exact absurd isMarked this
    · by_cases proper' : path' = []
      · subst proper'
        rw [value_nil] at equal
        have := (unmarked path bound proper present).1
        rw [equal] at this
        exact absurd isMarked this
      · exact grows.distinct () () path path' bound bound'
          (only path bound proper) (only path' bound' proper') present equal
  · intro other isMarked
    exact grows.marks _ (marks _ isMarked)

/-- A forest grows when one of its trees does and the others are not
touched. -/
theorem Grows.atRoot
    [DecidableEq ρ] {r : ρ}
    (grows : TreeGrows null (height r) (root r) child marked entry' child'
      marked')
    (others : ∀ r', r' ≠ r → ∀ path, path.length ≤ height r' →
      value null child' (root r') path = value null child (root r') path) :
    Grows null height root child marked (Function.update root r entry')
      child' marked' := by
  have elsewhere : ∀ r', r' ≠ r → ∀ path, path.length ≤ height r' →
      value null child' (Function.update root r entry' r') path =
        value null child (root r') path := by
    intro r' differ path bound
    rw [Function.update_of_ne differ]
    exact others r' differ path bound
  constructor
  · intro r' path bound
    by_cases same : r' = r
    · subst same
      rw [Function.update_self]
      exact grows.kept () path bound
    · exact Or.inl (elsewhere r' same path bound)
  · intro r₁ r₂ path path' bound bound' missing missing' present equal
    by_cases same : r₁ = r
    · by_cases same' : r₂ = r
      · subst same
        subst same'
        rw [Function.update_self] at present equal
        exact ⟨rfl, (grows.distinct () () path path' bound bound' missing
          missing' present equal).2⟩
      · rw [equal, elsewhere r₂ same' path' bound', missing'] at present
        exact absurd rfl present
    · rw [elsewhere r₁ same path bound, missing] at present
      exact absurd rfl present
  · exact grows.marks

/-! ## Attaching a block -/

/-- The block one pointer further. -/
theorem value_concat (entry : β) (path : List ι) (index : ι) :
    value null child entry (path ++ [index]) =
      if value null child entry path = null then null
      else child (value null child entry path) index := by
  induction path generalizing entry with
  | nil => rfl
  | cons first rest inductionHypothesis =>
      by_cases missing : entry = null
      · rw [missing, value_null, value_null, if_pos rfl]
      · rw [List.cons_append, value_cons missing, value_cons missing,
          inductionHypothesis]

section Attach

variable [DecidableEq ι] [DecidableEq ρ] {r : ρ} {path : List ι}
  {table fresh : β} {index : ι}
  (sound : Sound null height root child marked)
  (short : path.length < height r)
  (isTable : value null child (root r) path = table)
  (present : table ≠ null)
  (missing : child table index = null)
  (notMarked : ¬marked fresh) (notNull : fresh ≠ null)
  (stored : child' table = Function.update (child table) index fresh)
  (empty : ∀ other, child' fresh other = null)
  (others : ∀ block, marked block → block ≠ table →
    child' block = child block)

include sound short isTable present missing notNull stored empty others

/-- A block without pointers that is stored where none was appears at one place
and changes nothing else. -/
theorem value_attach
    {r' : ρ} {path' : List ι} (bound : path'.length ≤ height r') :
    value null child' (root r') path' =
      if r' = r ∧ path' = path ++ [index] then fresh
      else value null child (root r') path' := by
  induction path' using List.reverseRecOn with
  | nil =>
      rw [if_neg]
      · rfl
      · rintro ⟨_, same⟩
        simp at same
  | append_singleton front last inductionHypothesis =>
      rw [List.length_append, List.length_singleton] at bound
      have shorter : front.length ≤ height r' := Nat.le_of_succ_le bound
      have above := inductionHypothesis shorter
      by_cases inside : r' = r ∧ front = path ++ [index]
      · -- below the new block
        obtain ⟨rfl, rfl⟩ := inside
        rw [if_pos ⟨rfl, rfl⟩] at above
        rw [value_concat, above, if_neg notNull, empty, if_neg]
        · rw [value_concat, value_concat, isTable, if_neg present, missing,
            if_pos rfl]
        · rintro ⟨_, same⟩
          simp at same
      · rw [if_neg inside] at above
        rw [value_concat, above, value_concat]
        by_cases nothing : value null child (root r') front = null
        · rw [if_pos nothing, if_pos nothing, if_neg]
          rintro ⟨rfl, same⟩
          have same := (List.append_inj' same rfl).1
          subst same
          exact present (isTable.symm.trans nothing)
        · rw [if_neg nothing, if_neg nothing]
          by_cases atTable : value null child (root r') front = table
          · obtain ⟨rfl, rfl⟩ := sound.unique r' r front path shorter
              (Nat.le_of_lt short) nothing (atTable.trans isTable.symm)
            rw [atTable, stored]
            by_cases isIndex : last = index
            · subst isIndex
              rw [Function.update_self, if_pos ⟨rfl, rfl⟩]
            · rw [Function.update_of_ne isIndex, if_neg]
              rintro ⟨_, same⟩
              exact isIndex (by simpa using same)
          · rw [others _ (sound.marked r' front shorter nothing) atTable,
              if_neg]
            rintro ⟨rfl, same⟩
            have same := (List.append_inj' same rfl).1
            subst same
            exact atTable isTable

include notMarked

/-- The forest stays sound when the new block is marked. -/
theorem Sound.attach :
    Sound null height root child'
      (fun block => marked block ∨ block = fresh) := by
  have values : ∀ r' path', path'.length ≤ height r' →
      value null child' (root r') path' =
        if r' = r ∧ path' = path ++ [index] then fresh
        else value null child (root r') path' :=
    fun r' path' bound => value_attach sound short isTable present missing
      notNull stored empty others bound
  constructor
  · intro r' path' bound below
    rw [values r' path' bound] at below ⊢
    by_cases isNew : r' = r ∧ path' = path ++ [index]
    · rw [if_pos isNew]
      exact Or.inr rfl
    · rw [if_neg isNew] at below ⊢
      exact Or.inl (sound.marked r' path' bound below)
  · intro r₁ r₂ path₁ path₂ bound₁ bound₂ below equal
    rw [values r₁ path₁ bound₁] at below equal
    rw [values r₂ path₂ bound₂] at equal
    by_cases isNew₁ : r₁ = r ∧ path₁ = path ++ [index]
    · by_cases isNew₂ : r₂ = r ∧ path₂ = path ++ [index]
      · rw [isNew₁.1, isNew₁.2, isNew₂.1, isNew₂.2]
        exact ⟨rfl, rfl⟩
      · rw [if_pos isNew₁, if_neg isNew₂] at equal
        rw [equal] at notMarked notNull
        exact absurd (sound.marked r₂ path₂ bound₂ notNull) notMarked
    · rw [if_neg isNew₁] at below equal
      by_cases isNew₂ : r₂ = r ∧ path₂ = path ++ [index]
      · rw [if_pos isNew₂] at equal
        rw [← equal] at notMarked
        exact absurd (sound.marked r₁ path₁ bound₁ below) notMarked
      · rw [if_neg isNew₂] at equal
        exact sound.unique r₁ r₂ path₁ path₂ bound₁ bound₂ below equal

end Attach

end Forest
end Library
