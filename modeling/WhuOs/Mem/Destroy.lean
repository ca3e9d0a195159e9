import WhuOs.Library.Postorder
import WhuOs.Mem.User

/-!
# Destroying page tables

`destroy_pgtbl` gives back every page below a table once, and the table itself.
While it runs, pages of the tree are free already, but the entries that are
still to be read are not in them.
-/

namespace WhuOs
namespace Mem

open Library
open Library.Bytes
open Library.Forest (postorder)
open Program (Runs)

variable {mem mem' : State}

/-! ## Giving pages back -/

/-- Give pages back to the user region, one after the other. -/
def State.giveBackAll (mem : State) (pages : List UInt64) : State :=
  pages.foldl (fun mem page => mem.giveBack page false) mem

theorem giveBackAll_append (mem : State) (pages pages' : List UInt64) :
    mem.giveBackAll (pages ++ pages') =
      (mem.giveBackAll pages).giveBackAll pages' :=
  List.foldl_append

theorem kernelPgtbl_giveBackAll (pages : List UInt64) :
    (mem.giveBackAll pages).kernelPgtbl = mem.kernelPgtbl := by
  induction pages generalizing mem with
  | nil => rfl
  | cons page pages inductionHypothesis =>
      have rest : ((mem.giveBack page false).giveBackAll pages).kernelPgtbl =
          (mem.giveBack page false).kernelPgtbl := inductionHypothesis
      exact rest.trans (setRegion_kernelPgtbl _ _)

theorem unchanged_giveBackAll
    {pages : List UInt64} (aligned : ∀ page ∈ pages, Aligned page)
    {page : UInt64} (aligned' : Aligned page) (other : page ∉ pages) :
    Unchanged page mem.bytes (mem.giveBackAll pages).bytes := by
  induction pages generalizing mem with
  | nil => exact fun _ _ => rfl
  | cons first rest inductionHypothesis =>
      have first' := (changedIn_giveBack mem first false).unchanged
        (aligned first List.mem_cons_self) aligned'
        (List.ne_of_not_mem_cons other)
      exact first'.trans (inductionHypothesis
        (fun page member => aligned page (List.mem_cons_of_mem first member))
        (List.not_mem_of_not_mem_cons other))

theorem Unchanged.entryOf
    {page : UInt64} {bytes bytes' : Bytes}
    (unchanged : Unchanged page bytes bytes') (index : Fin 512) :
    entryOf bytes' page index = entryOf bytes page index := by
  apply read64_congr
  intro offset bound
  have small := index.isLt
  apply unchanged
  exact ⟨by omega, by omega⟩

/-! ## The shape of a page table -/

/-- Valid entries lead to tables above the last level and to pages in it. -/
def Shaped (bytes : Bytes) : (level : Nat) → (table : UInt64) → Prop
  | 0, _ => True
  | level + 1, table => ∀ index,
      isValid (entryOf bytes table index) = true →
      pteCheck (entryOf bytes table index) = decide (0 < level) ∧
        pteToPa (entryOf bytes table index) ≠ 0 ∧
        Shaped bytes level (pteToPa (entryOf bytes table index))

/-- The pages below an entry of a table. -/
def pagesBelow (bytes : Bytes) (level : Nat) (table : UInt64)
    (index : Fin 512) : List UInt64 :=
  if childOf bytes table index = 0 then []
  else postorder 0 (childOf bytes) level (childOf bytes table index)

/-- The pages of a table of a level, from the leaves up. -/
def pagesOf (bytes : Bytes) (level : Nat) (table : UInt64) : List UInt64 :=
  postorder 0 (childOf bytes) level table

theorem pagesOf_succ (bytes : Bytes) (level : Nat) (table : UInt64) :
    pagesOf bytes (level + 1) table =
      (List.finRange 512).flatMap (pagesBelow bytes level table) ++ [table] :=
  Forest.postorder_succ level table

section Congr

variable {bytes bytes' : Bytes} {level : Nat} {table : UInt64}

theorem childOf_congr
    {index : Fin 512}
    (same : entryOf bytes' table index = entryOf bytes table index) :
    childOf bytes' table index = childOf bytes table index := by
  unfold childOf
  rw [same]

/-- The pages of a table are the same when none of them was written to. -/
theorem pagesOf_congr
    (unchanged : ∀ page ∈ pagesOf bytes level table,
      Unchanged page bytes bytes') :
    pagesOf bytes' level table = pagesOf bytes level table := by
  apply Forest.postorder_congr
  intro page visited index
  exact childOf_congr ((unchanged page visited).entryOf index)

theorem mem_pagesOf_self (bytes : Bytes) (level : Nat) (table : UInt64) :
    table ∈ pagesOf bytes level table := by
  cases level with
  | zero => exact List.mem_singleton_self table
  | succ level =>
      rw [pagesOf_succ]
      exact List.mem_append_right _ (List.mem_singleton_self table)

theorem mem_pagesOf_of_below
    {index : Fin 512} {page : UInt64}
    (below : page ∈ pagesBelow bytes level table index) :
    page ∈ pagesOf bytes (level + 1) table := by
  rw [pagesOf_succ]
  exact List.mem_append_left _
    (List.mem_flatMap.mpr ⟨index, List.mem_finRange index, below⟩)

theorem pagesBelow_of_valid
    {index : Fin 512} (valid : isValid (entryOf bytes table index) = true)
    (notNull : pteToPa (entryOf bytes table index) ≠ 0) :
    pagesBelow bytes level table index =
      pagesOf bytes level (pteToPa (entryOf bytes table index)) := by
  have child : childOf bytes table index =
      pteToPa (entryOf bytes table index) := if_pos valid
  unfold pagesBelow
  rw [child, if_neg notNull]
  rfl

theorem pagesBelow_of_not_valid
    {index : Fin 512} (invalid : isValid (entryOf bytes table index) = false) :
    pagesBelow bytes level table index = [] :=
  if_pos (childOf_eq_zero invalid)

theorem Shaped.congr
    (shaped : Shaped bytes level table)
    (unchanged : ∀ page ∈ pagesOf bytes level table,
      Unchanged page bytes bytes') : Shaped bytes' level table := by
  induction level generalizing table with
  | zero => trivial
  | succ level inductionHypothesis =>
      intro index valid
      have same := (unchanged table (mem_pagesOf_self _ _ _)).entryOf index
      rw [same] at valid ⊢
      rcases shaped index valid with ⟨check, notNull, below⟩
      refine ⟨check, notNull, inductionHypothesis below ?_⟩
      intro page member
      apply unchanged page
      apply mem_pagesOf_of_below
      rw [pagesBelow_of_valid valid notNull]
      exact member

theorem pagesBelow_congr
    {index : Fin 512}
    (same : entryOf bytes' table index = entryOf bytes table index)
    (unchanged : ∀ page ∈ pagesBelow bytes level table index,
      Unchanged page bytes bytes') :
    pagesBelow bytes' level table index =
      pagesBelow bytes level table index := by
  have sameChild := childOf_congr same
  unfold pagesBelow at unchanged ⊢
  rw [sameChild]
  split
  · rfl
  · next notNull =>
    rw [if_neg notNull] at unchanged
    exact pagesOf_congr unchanged

end Congr

/-! ## Runs -/

/-- The body of the loop of `destroy_pgtbl`. -/
def destroyEntry (level : Nat) (pgtbl : UInt64) (index : Nat) : MemM Unit := do
  let pte ← load (entryAddress pgtbl (UInt64.ofNat index))
  if isValid pte ∧ pteCheck pte then
    destroyPgtbl level (pteToPa pte)
  else if isValid pte then
    pmemFree (pteToPa pte) false
  else
    return

theorem destroyPgtbl_succ (level : Nat) (pgtbl : UInt64) :
    destroyPgtbl (level + 1) pgtbl = (do
      (List.range 512).forM (destroyEntry level pgtbl)
      pmemFree pgtbl false) := rfl

/-- The pages that are left to be given back, and the entries that lead to
them. -/
structure Destroying (mem : State) (level : Nat) (table : UInt64)
    (indices : List (Fin 512)) : Prop where
  aligned : Aligned table
  pagesAligned : ∀ index ∈ indices,
    ∀ page ∈ pagesBelow mem.bytes level table index, Aligned page
  nodup : (indices.flatMap (pagesBelow mem.bytes level table)).Nodup
  apart : table ∉ indices.flatMap (pagesBelow mem.bytes level table)
  shaped : ∀ index ∈ indices,
    isValid (entryOf mem.bytes table index) = true →
    pteCheck (entryOf mem.bytes table index) = decide (0 < level) ∧
      pteToPa (entryOf mem.bytes table index) ≠ 0 ∧
      Shaped mem.bytes level (pteToPa (entryOf mem.bytes table index))

namespace Destroying

variable {level : Nat} {table : UInt64} {index : Fin 512}
  {indices : List (Fin 512)}

/-- What was given back for one entry leaves the others. -/
theorem unchanged
    (destroying : Destroying mem level table (index :: indices))
    {page : UInt64} (aligned : Aligned page)
    (other : page ∉ pagesBelow mem.bytes level table index) :
    Unchanged page mem.bytes
      (mem.giveBackAll (pagesBelow mem.bytes level table index)).bytes :=
  unchanged_giveBackAll
    (destroying.pagesAligned index List.mem_cons_self) aligned other

theorem entryOf_next
    (destroying : Destroying mem level table (index :: indices))
    (other : Fin 512) :
    entryOf (mem.giveBackAll
        (pagesBelow mem.bytes level table index)).bytes table other =
      entryOf mem.bytes table other := by
  have apart := destroying.apart
  rw [List.flatMap_cons] at apart
  exact (destroying.unchanged destroying.aligned fun member =>
    apart (List.mem_append_left _ member)).entryOf other

theorem pages_unchanged
    (destroying : Destroying mem level table (index :: indices))
    {other : Fin 512} (later : other ∈ indices) {page : UInt64}
    (member : page ∈ pagesBelow mem.bytes level table other) :
    Unchanged page mem.bytes
      (mem.giveBackAll (pagesBelow mem.bytes level table index)).bytes := by
  have nodup := destroying.nodup
  rw [List.flatMap_cons, List.nodup_append] at nodup
  apply destroying.unchanged
  · exact destroying.pagesAligned other (List.mem_cons_of_mem _ later) page
      member
  · intro here
    exact nodup.2.2 page here page
      (List.mem_flatMap.mpr ⟨other, later, member⟩) rfl

theorem pagesBelow_next
    (destroying : Destroying mem level table (index :: indices))
    {other : Fin 512} (later : other ∈ indices) :
    pagesBelow (mem.giveBackAll
        (pagesBelow mem.bytes level table index)).bytes level table other =
      pagesBelow mem.bytes level table other :=
  pagesBelow_congr (destroying.entryOf_next other) fun _ member =>
    destroying.pages_unchanged later member

theorem flatMap_next
    (destroying : Destroying mem level table (index :: indices)) :
    indices.flatMap (pagesBelow (mem.giveBackAll
        (pagesBelow mem.bytes level table index)).bytes level table) =
      indices.flatMap (pagesBelow mem.bytes level table) :=
  List.flatMap_congr fun _ later => destroying.pagesBelow_next later

/-- One entry was dealt with. -/
theorem next
    (destroying : Destroying mem level table (index :: indices)) :
    Destroying (mem.giveBackAll (pagesBelow mem.bytes level table index)) level
      table indices := by
  have nodup := destroying.nodup
  have apart := destroying.apart
  rw [List.flatMap_cons] at nodup apart
  refine ⟨destroying.aligned, ?_, ?_, ?_, ?_⟩
  · intro other later page member
    rw [destroying.pagesBelow_next later] at member
    exact destroying.pagesAligned other (List.mem_cons_of_mem _ later) page
      member
  · rw [destroying.flatMap_next]
    exact (List.nodup_append.mp nodup).2.1
  · rw [destroying.flatMap_next]
    exact fun member => apart (List.mem_append_right _ member)
  · intro other later valid
    rw [destroying.entryOf_next] at valid ⊢
    rcases destroying.shaped other (List.mem_cons_of_mem _ later) valid with
      ⟨check, notNull, below⟩
    refine ⟨check, notNull, below.congr ?_⟩
    intro page member
    apply destroying.pages_unchanged later
    rw [pagesBelow_of_valid valid notNull]
    exact member

end Destroying

/-- `destroy_pgtbl` for a table of a level gives its pages back. -/
def Destroys (level : Nat) : Prop :=
  ∀ (mem : State) (table : UInt64), Shaped mem.bytes level table →
    (∀ page ∈ pagesOf mem.bytes level table, Aligned page) →
    (pagesOf mem.bytes level table).Nodup →
    (destroyPgtbl level table).Runs mem ()
      (mem.giveBackAll (pagesOf mem.bytes level table))

theorem load_index
    {table : UInt64} (aligned : Aligned table) (index : Fin 512) :
    (load (entryAddress table (UInt64.ofNat index))).Runs mem
      (entryOf mem.bytes table index) mem := by
  have below := index.isLt
  have small : (UInt64.ofNat index).toNat = index :=
    UInt64.toNat_ofNat_of_lt' (by change index.val < 2 ^ 64; omega)
  have bound : (UInt64.ofNat index).toNat < 512 := by
    rw [small]
    exact index.isLt
  refine runs_load.mpr ⟨?_, rfl⟩
  rw [entryAddress_toNat aligned bound, small]
  rfl

/-- One turn of the loop. -/
theorem destroyEntry_runs
    {level : Nat} {table : UInt64} {index : Fin 512} {indices : List (Fin 512)}
    (destroys : 0 < level → Destroys level)
    (destroying : Destroying mem level table (index :: indices)) :
    (destroyEntry level table index).Runs mem ()
      (mem.giveBackAll (pagesBelow mem.bytes level table index)) := by
  unfold destroyEntry
  rw [(load_index destroying.aligned index).bind_iff]
  cases valid : isValid (entryOf mem.bytes table index) with
  | false =>
      rw [pagesBelow_of_not_valid valid, if_neg (by simp), if_neg (by simp)]
      exact Program.runs_pure.mpr ⟨rfl, rfl⟩
  | true =>
      rcases destroying.shaped index List.mem_cons_self valid with
        ⟨check, notNull, below⟩
      have nodup := destroying.nodup
      rw [List.flatMap_cons, List.nodup_append] at nodup
      have aligned := destroying.pagesAligned index List.mem_cons_self
      rw [pagesBelow_of_valid valid notNull] at nodup aligned ⊢
      cases level with
      | zero =>
          rw [if_neg (by simp [check]), if_pos rfl]
          exact pmemFree_runs.mpr rfl
      | succ level =>
          rw [if_pos ⟨rfl, check.trans (decide_eq_true (Nat.succ_pos _))⟩]
          exact destroys (Nat.succ_pos _) mem _ below aligned nodup.1

/-- The loop. -/
theorem destroyEntries_runs
    {level : Nat} {table : UInt64} {indices : List (Fin 512)}
    (destroys : 0 < level → Destroys level)
    (destroying : Destroying mem level table indices) :
    ((indices.map Fin.val).forM (destroyEntry level table)).Runs mem ()
      (mem.giveBackAll
        (indices.flatMap (pagesBelow mem.bytes level table))) := by
  induction indices generalizing mem with
  | nil => exact Program.runs_pure.mpr ⟨rfl, rfl⟩
  | cons index indices inductionHypothesis =>
      have rest := inductionHypothesis destroying.next
      rw [destroying.flatMap_next] at rest
      rw [List.flatMap_cons, giveBackAll_append]
      exact Program.runs_bind.mpr
        ⟨(), _, destroyEntry_runs destroys destroying, rest⟩

theorem destroying_of_shaped
    {level : Nat} {table : UInt64} (shaped : Shaped mem.bytes (level + 1) table)
    (aligned : ∀ page ∈ pagesOf mem.bytes (level + 1) table, Aligned page)
    (nodup : (pagesOf mem.bytes (level + 1) table).Nodup) :
    Destroying mem level table (List.finRange 512) := by
  have nodup' := nodup
  rw [pagesOf_succ, List.nodup_append] at nodup'
  rcases nodup' with ⟨once, _, apart⟩
  refine ⟨aligned table (mem_pagesOf_self _ _ _), ?_, once, ?_, ?_⟩
  · intro index _ page below
    exact aligned page (mem_pagesOf_of_below below)
  · intro below
    exact apart table below table (List.mem_singleton_self table) rfl
  · intro index _
    exact shaped index

theorem destroyPgtbl_level
    {level : Nat} (destroys : 0 < level → Destroys level) :
    Destroys (level + 1) := by
  intro mem table shaped aligned nodup
  have entries := destroyEntries_runs destroys
    (destroying_of_shaped shaped aligned nodup)
  rw [destroyPgtbl_succ, ← List.map_coe_finRange_eq_range, pagesOf_succ,
    giveBackAll_append]
  exact Program.runs_bind.mpr ⟨(), _, entries, pmemFree_runs.mpr rfl⟩

/-- `destroy_pgtbl` gives back each page of a table whose pages are all
different. -/
theorem destroyPgtbl_runs (level : Nat) : Destroys (level + 1) := by
  induction level with
  | zero => exact destroyPgtbl_level fun wrong => absurd wrong (by decide)
  | succ level inductionHypothesis =>
      exact destroyPgtbl_level fun _ => inductionHypothesis

end Mem
end WhuOs
