import WhuOs.Mem.Heap
import WhuOs.Mem.Sv39

/-!
# Growing and shrinking the heap

`uvm_heap_grow` maps new pages from the round-up of the old top to the round-up
of the new one, or gives back what it took.  `uvm_heap_ungrow` gives the same
pages back, in one piece or in several.
-/

namespace WhuOs
namespace Mem

open Library
open Library.Bytes
open Program (Runs)

variable {ρ : Type} [DecidableEq ρ] {root : ρ → UInt64}
  {mem₀ mem mem' : State} {free₀ free free' : Bool → List UInt64} {r : ρ}
  {va heapTop newTop : UInt64} {len : UInt32} {pieces : List Piece}
  {dropped : List Nat}

/-- The number of pages between the round-ups of two tops. -/
def heapPages (heapTop newTop : UInt64) : Nat :=
  ((pageAlign newTop).toNat - (pageAlign heapTop).toNat) / 4096

/-- The pages between two tops. -/
structure HeapRange (heapTop newTop : UInt64) : Prop where
  first : (pageAlign heapTop).toNat = (heapTop.toNat + 4095) / 4096 * 4096
  stop : (pageAlign newTop).toNat = (newTop.toNat + 4095) / 4096 * 4096
  ends : (pageAlign heapTop).toNat + 4096 * heapPages heapTop newTop =
    (pageAlign newTop).toNat

theorem heapRange
    (ordered : heapTop ≤ newTop) (room : newTop.toNat + 4095 < 2 ^ 64) :
    HeapRange heapTop newTop := by
  have order := UInt64.le_iff_toNat_le.mp ordered
  have first := pageAlign_toNat
    (show heapTop.toNat + 4095 < 2 ^ 64 by omega)
  have stop := pageAlign_toNat room
  refine ⟨first, stop, ?_⟩
  unfold heapPages
  omega

/-- The new top of a heap that grows. -/
theorem newTop_toNat (low : heapTop.toNat ≤ 2 ^ 38) (len : UInt32) :
    (heapTop + len.toUInt64).toNat = heapTop.toNat + len.toNat := by
  have bound := len.toNat_lt
  rw [UInt64.toNat_add, UInt32.toNat_toUInt64]
  omega

theorem heapRange_grow (low : heapTop.toNat ≤ 2 ^ 38) (len : UInt32) :
    HeapRange heapTop (heapTop + len.toUInt64) := by
  have sum := newTop_toNat low len
  have bound := len.toNat_lt
  refine heapRange ?_ (by omega)
  rw [UInt64.le_iff_toNat_le]
  omega

theorem pageRange_first (low : heapTop.toNat ≤ 2 ^ 38) :
    PageRange (pageAlign heapTop) (pageAlign heapTop) 0 := by
  have first := pageAlign_toNat
    (show heapTop.toNat + 4095 < 2 ^ 64 by omega)
  exact ⟨aligned_pageAlign _, rfl, by omega⟩

/-! ## The map of an address space -/

/-- The entry of an address without a translation is not valid. -/
theorem not_isValid_of_translate
    (tables : Tables mem.bytes root free) (present : root r ≠ 0)
    {page : Nat} (low : page < 2 ^ 26)
    (unmapped : ∀ va : UInt64, va.toNat = 4096 * page →
      translate mem.bytes (root r) va = none)
    (va : UInt64) (isPage : pageOf va = page) :
    isValid (pteAt mem.bytes (root r) va) = false := by
  have toNat : (UInt64.ofNat (4096 * page)).toNat = 4096 * page := by
    rw [UInt64.toNat_ofNat']
    omega
  have none := unmapped (UInt64.ofNat (4096 * page)) toNat
  have canonical : Canonical (UInt64.ofNat (4096 * page)) := by
    unfold Canonical
    rw [toNat]
    omega
  have same : pageOf va = pageOf (UInt64.ofNat (4096 * page)) := by
    rw [isPage, pageOf_ofNat (by omega)]
  rw [translate_eq tables present, if_pos canonical] at none
  rw [pteAt_congr same]
  cases valid : isValid
      (pteAt mem.bytes (root r) (UInt64.ofNat (4096 * page))) with
  | true =>
      unfold leafOf at none
      rw [valid, if_pos rfl] at none
      cases none
  | false => rfl

namespace Filled

/-- The translations of an address space whose new pages are all gone. -/
theorem translate_gone
    (tables₀ : Tables mem₀.bytes root free₀)
    (filled : Filled root r mem₀ free₀ [] dropped mem free)
    (unmapped : ∀ va, pageOf va ∈ dropped →
      isValid (pteAt mem₀.bytes (root r) va) = false)
    {r' : ρ} (present : root r' ≠ 0) (va : UInt64) :
    translate mem.bytes (root r') va = translate mem₀.bytes (root r') va := by
  rw [translate_eq filled.tables present, translate_eq tables₀ present]
  by_cases isGone : r' = r ∧ pageOf va ∈ dropped
  · obtain ⟨rfl, isDropped⟩ := isGone
    rw [filled.gone va isDropped List.not_mem_nil]
    unfold leafOf
    rw [unmapped va isDropped, not_isValid_zero, if_neg Bool.false_ne_true,
      if_neg Bool.false_ne_true]
  · rw [filled.outside r' va]
    rintro ⟨same, isPiece | isDropped⟩
    · cases isPiece
    · exact isGone ⟨same, isDropped⟩

/-- Addresses whose pages nobody worked on. -/
theorem translate_outside
    (tables₀ : Tables mem₀.bytes root free₀)
    (filled : Filled root r mem₀ free₀ pieces dropped mem free)
    {r' : ρ} (present : root r' ≠ 0)
    (outside : ¬(r' = r ∧
      (pageOf va ∈ pieces.map Piece.vpn ∨ pageOf va ∈ dropped))) :
    translate mem.bytes (root r') va = translate mem₀.bytes (root r') va := by
  rw [translate_eq filled.tables present, translate_eq tables₀ present,
    filled.outside r' va outside]

/-- Addresses of a page that was taken. -/
theorem translate_piece
    (lists₀ : FreeLists mem₀ free₀)
    (filled : Filled root r mem₀ free₀ pieces dropped mem free)
    (present : root r ≠ 0) {piece : Piece} (member : piece ∈ pieces)
    (canonical : Canonical va) (isPage : pageOf va = piece.vpn) :
    translate mem.bytes (root r) va =
      some (piece.page + va % 4096, piece.perm ||| pteV) := by
  have flags := filled.flags piece member
  rw [translate_eq filled.tables present, if_pos canonical,
    filled.inside piece member va isPage]
  unfold leafOf
  rw [if_pos (isValid_leafPte _ _), pteFlags_leafPte flags,
    pteToPa_leafPte (filled.taken_piece lists₀ member).aligned flags]

/-- Addresses of the new pages of a heap. -/
theorem translate_heap
    (lists₀ : FreeLists mem₀ free₀) (present : root r ≠ 0) {first : UInt64}
    {pages : List UInt64}
    (filled : Filled root r mem₀ free₀
      (heapPieces (first.toNat / 4096) pages) dropped mem free)
    (aligned : Aligned first)
    (low : first.toNat + 4096 * pages.length ≤ 2 ^ 38)
    (atLeast : first.toNat ≤ va.toNat)
    (less : va.toNat < first.toNat + 4096 * pages.length) :
    ∃ page, pages[(va.toNat - first.toNat) / 4096]? = some page ∧
      translate mem.bytes (root r) va =
        some (page + va % 4096, pteR ||| pteW ||| pteU ||| pteV) := by
  unfold Aligned at aligned
  have index : (va.toNat - first.toNat) / 4096 < pages.length := by omega
  have member := heapPiece_mem (first.toNat / 4096) _ index
  refine ⟨_, List.getElem?_eq_getElem index, ?_⟩
  refine filled.translate_piece lists₀ present member (Or.inl (by omega)) ?_
  show pageOf va = _ + _
  unfold pageOf
  omega

/-- The free pages when all new pages are gone. -/
theorem mem_free
    (filled : Filled root r mem₀ free₀ [] dropped mem free) (page : UInt64) :
    page ∈ free false ↔ page ∈ free₀ false :=
  filled.user.mem_iff

theorem allocable
    (lists₀ : FreeLists mem₀ free₀)
    (filled : Filled root r mem₀ free₀ [] dropped mem free) :
    (mem.region false).allocable = (mem₀.region false).allocable := by
  have same : (free false).length = (free₀ false).length :=
    filled.user.length_eq
  apply UInt32.toNat.inj
  rw [← filled.lists.counted, ← lists₀.counted, same]

end Filled

/-! ## Growing -/

section Grow

variable (lists : FreeLists mem free) (tables : Tables mem.bytes root free)
  (present : root r ≠ 0) (low : heapTop.toNat ≤ 2 ^ 38)

include lists tables present low

/-- What `uvm_heap_grow` did when it returned. -/
theorem heapGrow_runs
    (run : (uvmHeapGrow (root r) heapTop len).Runs mem newTop mem') :
    newTop = heapTop + len.toUInt64 ∧
      heapPages heapTop (heapTop + len.toUInt64) ≤ (free false).length ∧
      (pageAlign (heapTop + len.toUInt64)).toNat ≤ 2 ^ 38 ∧
      (∃ free', Filled root r mem free
        (heapPieces ((pageAlign heapTop).toNat / 4096) ((free false).take
          (heapPages heapTop (heapTop + len.toUInt64)))) [] mem' free') ∨
    newTop = heapTop ∧
      (free false).length < heapPages heapTop (heapTop + len.toUInt64) ∧
      (pageAlign heapTop).toNat + 4096 * (free false).length ≤ 2 ^ 38 ∧
      ∃ free' dropped', Filled root r mem free [] dropped' mem' free' ∧
        ∀ vpn, vpn ∈ dropped' ↔ (pageAlign heapTop).toNat / 4096 ≤ vpn ∧
          vpn < (pageAlign heapTop).toNat / 4096 + (free false).length := by
  have range := heapRange_grow low len
  rw [uvmHeapGrow, Program.runs_bind] at run
  obtain ⟨grown, _, loop, run⟩ := run
  have filled : Filled root r mem free
      (heapPieces ((pageAlign heapTop).toNat / 4096) []) [] mem free :=
    Filled.refl lists tables
  have fueled : heapPages heapTop (heapTop + len.toUInt64) ≤
      rangeFuel (pageAlign heapTop) (pageAlign (heapTop + len.toUInt64)) :=
    Nat.le_add_right _ 1
  rcases filled.growLoop lists tables present (pageRange_first low) range.ends
    fueled loop with
    ⟨rfl, fits, final⟩ | ⟨rfl, full, below, free', dropped', final⟩
  · rw [if_pos rfl] at run
    obtain ⟨rfl, rfl⟩ := Program.runs_pure.mp run
    exact Or.inl ⟨rfl, fits, final⟩
  · rw [if_neg Bool.false_ne_true] at run
    obtain ⟨rfl, rfl⟩ := Program.runs_pure.mp run
    rw [List.length_nil, Nat.zero_add] at below
    refine Or.inr ⟨rfl, full, below, free', dropped', final.1, fun vpn => ?_⟩
    rw [final.2, List.length_nil, Nat.zero_add]
    exact ⟨fun isIn => isIn.resolve_left List.not_mem_nil, Or.inr⟩

/-- `uvm_heap_grow` returns if the pages that it can map lie below `VA_MAX` and
there is a page for each table that they need. -/
theorem heapGrow_total
    {count : Nat} (few : (free false).length ≤ count ∨
      heapPages heapTop (heapTop + len.toUInt64) ≤ count)
    (below : (pageAlign heapTop).toNat + 4096 * count ≤ 2 ^ 38)
    (enough : Enough mem.bytes (root r) free
      (tablesOf (pageAlign heapTop) count)) :
    ∃ newTop mem', (uvmHeapGrow (root r) heapTop len).Runs mem newTop mem' := by
  have range := heapRange_grow low len
  have filled : Filled root r mem free
      (heapPieces ((pageAlign heapTop).toNat / 4096) []) [] mem free :=
    Filled.refl lists tables
  obtain ⟨grown, mem', loop⟩ := filled.growLoop_total lists tables present
    (pageRange_first low) range.ends (fun index bound bound' =>
      ⟨by omega, fun level bound'' =>
        pathTo_mem_tablesOf (by omega) bound''⟩) enough
  cases grown with
  | true => exact ⟨_, mem', Program.runs_bind.mpr ⟨true, mem', loop,
      Program.runs_pure.mpr ⟨rfl, rfl⟩⟩⟩
  | false => exact ⟨_, mem', Program.runs_bind.mpr ⟨false, mem', loop,
      Program.runs_pure.mpr ⟨rfl, rfl⟩⟩⟩

end Grow

/-! ## Shrinking -/

/-- `uvm_heap_ungrow` gives the pages between the two tops back. -/
theorem Filled.heapUngrow
    (lists₀ : FreeLists mem₀ free₀) (tables₀ : Tables mem₀.bytes root free₀)
    (present : root r ≠ 0) {pages : List UInt64}
    (ordered : len.toNat ≤ heapTop.toNat)
    (low : (pageAlign heapTop).toNat ≤ 2 ^ 38)
    (room : heapTop.toNat + 4095 < 2 ^ 64)
    (isNew : newTop = heapTop - len.toUInt64)
    (count : pages.length = heapPages newTop heapTop)
    (filled : Filled root r mem₀ free₀ (pieces ++
      heapPieces ((pageAlign newTop).toNat / 4096) pages) dropped mem free) :
    ∃ mem' free' dropped',
      (uvmHeapUngrow (root r) heapTop len).Runs mem newTop mem' ∧
      Filled root r mem₀ free₀ pieces dropped' mem' free' ∧
      ∀ vpn, vpn ∈ dropped' ↔ vpn ∈ dropped ∨
        (pageAlign newTop).toNat / 4096 ≤ vpn ∧
          vpn < (pageAlign newTop).toNat / 4096 + pages.length := by
  have order : len.toUInt64 ≤ heapTop := by
    rw [UInt64.le_iff_toNat_le, UInt32.toNat_toUInt64]
    exact ordered
  have smaller : newTop ≤ heapTop := by
    rw [UInt64.le_iff_toNat_le, isNew, UInt64.toNat_sub_of_le _ _ order]
    exact Nat.sub_le _ _
  have isTop : (if heapTop - len.toUInt64 > heapTop then 0
      else heapTop - len.toUInt64) = newTop := by
    rw [← isNew, if_neg (UInt64.not_lt.mpr smaller)]
  have range := heapRange smaller room
  have pagesRange : PageRange (pageAlign newTop) (pageAlign heapTop)
      pages.length := by
    rw [count]
    exact ⟨aligned_pageAlign _, range.ends, low⟩
  have fueled : pages.length ≤
      rangeFuel (pageAlign newTop) (pageAlign heapTop) := by
    rw [count]
    exact Nat.le_add_right _ 1
  obtain ⟨mem', free', dropped', frees, filled', members⟩ :=
    filled.freeRange lists₀ tables₀ present pagesRange fueled
  refine ⟨mem', free', dropped', ?_, filled', members⟩
  rw [uvmHeapUngrow, isTop, frees.bind_iff]
  exact Program.runs_pure.mpr ⟨rfl, rfl⟩

omit [DecidableEq ρ] in
/-- `uvm_heap_ungrow` does not move the top of the heap up. -/
theorem heapUngrow_le
    {pgtbl : UInt64}
    (run : (uvmHeapUngrow pgtbl heapTop len).Runs mem newTop mem') :
    newTop ≤ heapTop := by
  rw [uvmHeapUngrow, Program.runs_bind] at run
  obtain ⟨_, _, _, run⟩ := run
  obtain ⟨rfl, _⟩ := Program.runs_pure.mp run
  split
  · exact UInt64.zero_le
  · rename_i notAbove
    exact UInt64.not_lt.mp notAbove

/-- Shrink the heap several times in a row. -/
def shrinkAll (pgtbl : UInt64) : (heapTop : UInt64) → List UInt32 → MemM UInt64
  | heapTop, [] => return heapTop
  | heapTop, len :: rest => do
      let newTop ← uvmHeapUngrow pgtbl heapTop len
      shrinkAll pgtbl newTop rest

/-- Several calls that shrink a heap to its old top give all pages back. -/
theorem Filled.shrinkAll
    (lists₀ : FreeLists mem₀ free₀) (tables₀ : Tables mem₀.bytes root free₀)
    (present : root r ≠ 0) {base : UInt64} {shrinks : List UInt32}
    (low : (pageAlign heapTop).toNat ≤ 2 ^ 38)
    (room : heapTop.toNat + 4095 < 2 ^ 64)
    (sum : base.toNat + (shrinks.map UInt32.toNat).sum = heapTop.toNat)
    {pages : List UInt64} (count : pages.length = heapPages base heapTop)
    (filled : Filled root r mem₀ free₀
      (heapPieces ((pageAlign base).toNat / 4096) pages) dropped mem free) :
    ∃ mem' free' dropped',
      (shrinkAll (root r) heapTop shrinks).Runs mem base mem' ∧
      Filled root r mem₀ free₀ [] dropped' mem' free' ∧
      ∀ vpn ∈ dropped', vpn ∈ dropped ∨
        (pageAlign base).toNat / 4096 ≤ vpn ∧
          vpn < (pageAlign base).toNat / 4096 + pages.length := by
  induction shrinks generalizing heapTop mem free pages dropped with
  | nil =>
      have same : base = heapTop := UInt64.toNat.inj sum
      subst same
      have none : pages.length = 0 := by
        rw [count]
        unfold heapPages
        omega
      rw [List.length_eq_zero_iff.mp none] at filled
      exact ⟨mem, free, dropped, Program.runs_pure.mpr ⟨rfl, rfl⟩, filled,
        fun vpn member => Or.inl member⟩
  | cons len rest inductionHypothesis =>
      rw [List.map_cons, List.sum_cons] at sum
      have order : len.toUInt64 ≤ heapTop := by
        rw [UInt64.le_iff_toNat_le, UInt32.toNat_toUInt64]
        omega
      have newTop : (heapTop - len.toUInt64).toNat =
          heapTop.toNat - len.toNat := by
        rw [UInt64.toNat_sub_of_le _ _ order, UInt32.toNat_toUInt64]
      have lower : HeapRange base (heapTop - len.toUInt64) := by
        refine heapRange ?_ (by omega)
        rw [UInt64.le_iff_toNat_le]
        omega
      have upper : HeapRange (heapTop - len.toUInt64) heapTop := by
        refine heapRange ?_ room
        rw [UInt64.le_iff_toNat_le]
        omega
      have lowerEnds := lower.ends
      have upperEnds := upper.ends
      have whole : heapPages base heapTop =
          heapPages base (heapTop - len.toUInt64) +
            heapPages (heapTop - len.toUInt64) heapTop := by
        have first := lower.first
        have stop := upper.stop
        rw [show heapPages base heapTop = ((pageAlign heapTop).toNat -
          (pageAlign base).toNat) / 4096 from rfl]
        omega
      have kept : (pages.take
          (heapPages base (heapTop - len.toUInt64))).length =
            heapPages base (heapTop - len.toUInt64) := by
        rw [List.length_take, count, whole]
        exact Nat.min_eq_left (Nat.le_add_right _ _)
      have gone : (pages.drop
          (heapPages base (heapTop - len.toUInt64))).length =
            heapPages (heapTop - len.toUInt64) heapTop := by
        rw [List.length_drop, count, whole, Nat.add_sub_cancel_left]
      have isFirst : (pageAlign base).toNat / 4096 +
          heapPages base (heapTop - len.toUInt64) =
            (pageAlign (heapTop - len.toUInt64)).toNat / 4096 := by
        omega
      rw [← List.take_append_drop (heapPages base (heapTop - len.toUInt64))
        pages, heapPieces_append, kept, isFirst] at filled
      obtain ⟨mem₁, free₁, dropped₁, shrinks, filled₁, members₁⟩ :=
        filled.heapUngrow lists₀ tables₀ present
          (show len.toNat ≤ heapTop.toNat by omega) low room rfl gone
      obtain ⟨mem', free', dropped', others, filled', members'⟩ :=
        inductionHypothesis (by omega) (by omega) (by omega) kept filled₁
      refine ⟨mem', free', dropped', ?_, filled', fun vpn member => ?_⟩
      · rw [Mem.shrinkAll, shrinks.bind_iff]
        exact others
      · rw [kept] at members'
        rw [gone] at members₁
        rw [count, whole]
        rcases members' vpn member with isDropped | inside
        · rcases (members₁ vpn).mp isDropped with wasDropped | inside
          · exact Or.inl wasDropped
          · exact Or.inr ⟨by omega, by omega⟩
        · exact Or.inr ⟨by omega, by omega⟩

/-! ## Main results -/

/-- The pages of a heap are those between the two tops. -/
theorem Filled.translate_elsewhere
    (tables₀ : Tables mem₀.bytes root free₀)
    (filled : Filled root r mem₀ free₀ pieces dropped mem free)
    {first stop : UInt64} {pages : Nat} (range : PageRange first stop pages)
    (inside : ∀ vpn, vpn ∈ pieces.map Piece.vpn ∨ vpn ∈ dropped →
      first.toNat / 4096 ≤ vpn ∧ vpn < first.toNat / 4096 + pages)
    {r' : ρ} (present : root r' ≠ 0)
    (outside : ¬(r' = r ∧ first ≤ va ∧ va < stop)) :
    translate mem.bytes (root r') va = translate mem₀.bytes (root r') va := by
  by_cases canonical : Canonical va
  · refine filled.translate_outside tables₀ present ?_
    rintro ⟨same, isThere⟩
    exact outside ⟨same, (range.mem_iff canonical).mpr (inside _ isThere)⟩
  · unfold translate
    rw [if_neg canonical, if_neg canonical]

/-- Every translation and the set of the free user pages are as before. -/
structure Restored (root : ρ → UInt64) (mem : State)
    (free : Bool → List UInt64) (mem' : State) (free' : Bool → List UInt64) :
    Prop where
  lists : FreeLists mem' free'
  tables : Tables mem'.bytes root free'
  translations : ∀ r va, root r ≠ 0 →
    translate mem'.bytes (root r) va = translate mem.bytes (root r) va
  pages : ∀ page, page ∈ free' false ↔ page ∈ free false
  allocable : (mem'.region false).allocable = (mem.region false).allocable

/-- The virtual pages between two tops that are not mapped. -/
def Unmapped (mem : State) (pgtbl heapTop newTop : UInt64) : Prop :=
  ∀ va, pageAlign heapTop ≤ va → va < pageAlign newTop →
    translate mem.bytes pgtbl va = none

/-- All new pages are gone, and nothing was mapped in their place before. -/
theorem Filled.restored
    (lists₀ : FreeLists mem₀ free₀) (tables₀ : Tables mem₀.bytes root free₀)
    (present : root r ≠ 0)
    (filled : Filled root r mem₀ free₀ [] dropped mem free)
    (unmapped : Unmapped mem₀ (root r) heapTop newTop)
    (low : (pageAlign newTop).toNat ≤ 2 ^ 38)
    (range : HeapRange heapTop newTop)
    (inside : ∀ vpn ∈ dropped, (pageAlign heapTop).toNat / 4096 ≤ vpn ∧
      vpn < (pageAlign heapTop).toNat / 4096 + heapPages heapTop newTop) :
    Restored root mem₀ free₀ mem free := by
  have ends := range.ends
  have first := range.first
  refine ⟨filled.lists, filled.tables, fun r' va present' =>
    filled.translate_gone tables₀ (fun va isDropped => ?_) present' va,
    filled.mem_free, filled.allocable lists₀⟩
  obtain ⟨atLeast, less⟩ := inside _ isDropped
  refine not_isValid_of_translate tables₀ present (by omega)
    (fun va' isVa => unmapped va' ?_ ?_) va rfl
  · rw [UInt64.le_iff_toNat_le, isVa]
    omega
  · rw [UInt64.lt_iff_toNat_lt, isVa]
    omega

/-- `uvm_heap_grow` maps new pages filled with zeros between the two tops, and
shrinking the heap by as much, at once or in steps, undoes it. -/
theorem heapGrow_inverse
    (lists : FreeLists mem free) (tables : Tables mem.bytes root free)
    (present : root r ≠ 0) (heapTop : UInt64) (len : UInt32)
    (below : heapTop.toNat + len.toNat ≤ trapframeVa.toNat)
    (unmapped : Unmapped mem (root r) heapTop (heapTop + len.toUInt64))
    (enoughPages : heapPages heapTop (heapTop + len.toUInt64) ≤
      (free false).length)
    (enoughTables : Enough mem.bytes (root r) free (tablesOf
      (pageAlign heapTop) (heapPages heapTop (heapTop + len.toUInt64)))) :
    ∃ mem' free', ∃ pages : List UInt64,
      (uvmHeapGrow (root r) heapTop len).Runs mem (heapTop + len.toUInt64)
        mem' ∧
      FreeLists mem' free' ∧ Tables mem'.bytes root free' ∧
      pages.length = heapPages heapTop (heapTop + len.toUInt64) ∧
      pages.Nodup ∧
      (∀ page ∈ pages, page ∈ free false ∧ ∀ offset < 4096,
        mem'.bytes (page.toNat + offset) = 0) ∧
      (∀ va, pageAlign heapTop ≤ va →
        va < pageAlign (heapTop + len.toUInt64) →
        ∃ page, pages[(va.toNat - (pageAlign heapTop).toNat) / 4096]? =
            some page ∧
          translate mem'.bytes (root r) va =
            some (page + va % 4096, pteR ||| pteW ||| pteU ||| pteV)) ∧
      (∀ r' va, root r' ≠ 0 → ¬(r' = r ∧ pageAlign heapTop ≤ va ∧
          va < pageAlign (heapTop + len.toUInt64)) →
        translate mem'.bytes (root r') va =
          translate mem.bytes (root r') va) ∧
      (∃ mem'' free'', (uvmHeapUngrow (root r) (heapTop + len.toUInt64)
          len).Runs mem' heapTop mem'' ∧
        Restored root mem free mem'' free'') ∧
      ∀ shrinks : List UInt32,
        (shrinks.map UInt32.toNat).sum = len.toNat →
        ∃ mem'' free'', (shrinkAll (root r) (heapTop + len.toUInt64)
            shrinks).Runs mem' heapTop mem'' ∧
          Restored root mem free mem'' free'' := by
  have trapframe : trapframeVa.toNat = 2 ^ 38 - 8192 := rfl
  have low : heapTop.toNat ≤ 2 ^ 38 := by omega
  have sum := newTop_toNat low len
  have range := heapRange_grow low len
  have stop := range.stop
  have ends := range.ends
  have lowStop : (pageAlign (heapTop + len.toUInt64)).toNat ≤ 2 ^ 38 := by
    omega
  have pageRange : PageRange (pageAlign heapTop)
      (pageAlign (heapTop + len.toUInt64))
      (heapPages heapTop (heapTop + len.toUInt64)) :=
    ⟨aligned_pageAlign _, ends, lowStop⟩
  obtain ⟨newTop, mem', run⟩ := heapGrow_total lists tables present low
    (Or.inr (Nat.le_refl _)) (by omega) enoughTables
  rcases heapGrow_runs lists tables present low run with
    ⟨rfl, _, _, free', filled⟩ | ⟨_, full, _⟩
  · have count : ((free false).take (heapPages heapTop
        (heapTop + len.toUInt64))).length =
          heapPages heapTop (heapTop + len.toUInt64) := by
      rw [List.length_take, Nat.min_eq_left enoughPages]
    have back : ∀ shrinks : List UInt32,
        (shrinks.map UInt32.toNat).sum = len.toNat →
        ∃ mem'' free'', (shrinkAll (root r) (heapTop + len.toUInt64)
            shrinks).Runs mem' heapTop mem'' ∧
          Restored root mem free mem'' free'' := by
      intro shrinks isSum
      obtain ⟨mem'', free'', dropped', shrunk, gone, members⟩ :=
        filled.shrinkAll lists tables present lowStop (by omega)
          (by rw [isSum, sum]) count
      rw [count] at members
      exact ⟨mem'', free'', shrunk, gone.restored lists tables present unmapped
        lowStop range fun vpn member =>
          (members vpn member).resolve_left List.not_mem_nil⟩
    refine ⟨mem', free', _, run, filled.lists, filled.tables, count, ?_, ?_, ?_,
      ?_, ?_, back⟩
    · exact (lists.nodup false).sublist (List.take_sublist _ _)
    · intro page member
      refine ⟨List.mem_of_mem_take member, fun offset bound => ?_⟩
      rw [← heapPieces_page ((pageAlign heapTop).toNat / 4096)
        ((free false).take _)] at member
      obtain ⟨piece, isPiece, rfl⟩ := List.mem_map.mp member
      rw [filled.contents piece isPiece offset bound]
      exact heapPieces_zero isPiece offset
    · intro va atLeast less
      rw [UInt64.le_iff_toNat_le] at atLeast
      rw [UInt64.lt_iff_toNat_lt] at less
      exact filled.translate_heap lists present (aligned_pageAlign _)
        (by rw [count]; omega) atLeast (by rw [count]; omega)
    · intro r' va present' outside
      refine filled.translate_elsewhere tables pageRange ?_ present' outside
      rintro vpn (isPiece | isDropped)
      · rw [heapPieces_vpn, List.mem_range'_1, count] at isPiece
        exact isPiece
      · cases isDropped
    · obtain ⟨mem'', free'', shrunk, restored⟩ := back [len] (by simp)
      obtain ⟨newTop, middle, shrinks, rest⟩ := Program.runs_bind.mp shrunk
      obtain ⟨rfl, rfl⟩ := Program.runs_pure.mp rest
      exact ⟨middle, free'', shrinks, restored⟩
  · exact absurd full (Nat.not_lt.mpr enoughPages)

/-- `uvm_heap_grow` gives everything back when the user region has fewer pages
than it needs. -/
theorem heapGrow_rollsBack
    (lists : FreeLists mem free) (tables : Tables mem.bytes root free)
    (present : root r ≠ 0) (heapTop : UInt64) (len : UInt32)
    (isUser : heapTop ≤ trapframeVa)
    (trapframe : translate mem.bytes (root r) trapframeVa ≠ none)
    (unmapped : Unmapped mem (root r) heapTop (heapTop + len.toUInt64))
    (few : (free false).length < heapPages heapTop (heapTop + len.toUInt64))
    (enoughTables : Enough mem.bytes (root r) free
      (tablesOf (pageAlign heapTop) (free false).length)) :
    ∃ mem' free', (uvmHeapGrow (root r) heapTop len).Runs mem heapTop mem' ∧
      Restored root mem free mem' free' := by
  have isTrapframe : trapframeVa.toNat = 2 ^ 38 - 8192 := rfl
  rw [UInt64.le_iff_toNat_le] at isUser
  have low : heapTop.toNat ≤ 2 ^ 38 := by omega
  have range := heapRange_grow low len
  have first := range.first
  have ends := range.ends
  -- the trapframe is mapped, so the new top lies below it
  have lowStop : (pageAlign (heapTop + len.toUInt64)).toNat ≤ 2 ^ 38 := by
    by_contra above
    refine trapframe (unmapped trapframeVa ?_ ?_)
    · rw [UInt64.le_iff_toNat_le]
      omega
    · rw [UInt64.lt_iff_toNat_lt]
      omega
  obtain ⟨newTop, mem', run⟩ := heapGrow_total lists tables present low
    (Or.inl (Nat.le_refl _)) (by omega) enoughTables
  rcases heapGrow_runs lists tables present low run with
    ⟨_, fits, _⟩ | ⟨rfl, _, _, free', dropped', filled, members⟩
  · exact absurd few (Nat.not_lt.mpr fits)
  · refine ⟨mem', free', run, filled.restored lists tables present unmapped
      lowStop range fun vpn isDropped => ?_⟩
    obtain ⟨atLeast, less⟩ := (members vpn).mp isDropped
    exact ⟨atLeast, by omega⟩

/-- Pages that are linked in memory. -/
def linkedBytes : List UInt64 → Bytes
  | page :: next :: rest =>
      write64 (linkedBytes (next :: rest)) page.toNat next
  | _ => fun _ => 0

/-- Only the first bytes of the pages are set. -/
theorem linkedBytes_eq_zero
    {pages : List UInt64} {address : Nat}
    (outside : ∀ page ∈ pages,
      ¬(page.toNat ≤ address ∧ address < page.toNat + 8)) :
    linkedBytes pages address = 0 := by
  induction pages with
  | nil => rfl
  | cons page rest inductionHypothesis =>
      cases rest with
      | nil => rfl
      | cons next rest =>
          have zero := inductionHypothesis fun page member =>
            outside page (List.mem_cons_of_mem _ member)
          rw [linkedBytes, write64, memmove_of_not_mem _ _
            (outside page List.mem_cons_self), zero]

/-- Memory with six free pages of the kernel and two user pages. -/
def fewPages : State :=
  ⟨fun address => linkedBytes (pagesFrom 0x80101000 6) address +
      linkedBytes (pagesFrom 0x80107000 2) address,
    ⟨0x80100000, 0x80107000, 6, 0x80101000⟩,
    ⟨0x80107000, 0x80109000, 2, 0x80107000⟩, 0⟩

/-- The free pages of `fewPages`. -/
def fewPagesFree : Bool → List UInt64
  | true => pagesFrom 0x80101000 6
  | false => pagesFrom 0x80107000 2

theorem freeLists_fewPages : FreeLists fewPages fewPagesFree :=
  ⟨by decide +kernel, by decide +kernel, by decide +kernel,
    unique_of_all (by decide +kernel),
    fun inKernel => forall_of_all (by cases inKernel <;> decide +kernel)⟩

/-- The other pages are empty. -/
theorem fewPages_eq_zero
    {address : Nat} (outside : address < 0x80101000 ∨ 0x80108008 ≤ address) :
    fewPages.bytes address = 0 := by
  have pages : ∀ inKernel, (fewPagesFree inKernel).all (fun page =>
      decide (0x80101000 ≤ page.toNat ∧ page.toNat ≤ 0x80108000)) = true := by
    decide
  have zero : ∀ inKernel, linkedBytes (fewPagesFree inKernel) address = 0 := by
    intro inKernel
    refine linkedBytes_eq_zero fun page member inside => ?_
    have bounds := forall_of_all (pages inKernel) page member
    omega
  change linkedBytes (fewPagesFree true) address +
    linkedBytes (fewPagesFree false) address = 0
  rw [zero, zero]
  rfl

theorem empty_fewPages (index : Fin 512) :
    entryOf fewPages.bytes 0x80100000 index = 0 := by
  refine entryOf_of_zero (fun offset bound => fewPages_eq_zero (Or.inl ?_))
    index
  change 0x80100000 + offset < _
  omega

theorem tables_fewPages :
    Tables fewPages.bytes (fun _ : Unit => 0x80100000) fewPagesFree :=
  Tables.empty (fun _ => ⟨by decide, by decide +kernel⟩)
    (fun _ => empty_fewPages) fun _ _ _ => rfl

theorem pteAt_fewPages (va : UInt64) :
    pteAt fewPages.bytes 0x80100000 va = 0 :=
  pteAt_empty empty_fewPages va

theorem unmapped_fewPages (heapTop newTop : UInt64) :
    Unmapped fewPages 0x80100000 heapTop newTop := by
  intro va _ _
  have eq : translate fewPages.bytes 0x80100000 va =
      if Canonical va then leafOf (pteAt fewPages.bytes 0x80100000 va) va
      else none := translate_eq (r := ()) tables_fewPages (by decide) va
  rw [eq, pteAt_fewPages]
  unfold leafOf
  rw [not_isValid_zero]
  exact ite_self _

theorem enough_fewPages :
    Enough fewPages.bytes 0x80100000 fewPagesFree
      (tablesOf 0x3000 (heapPages 0x3000 (0x3000 + 0x1800))) := by
  unfold Enough
  decide +kernel

theorem heapGrow_inverse_fewPages :
    ∃ mem' mem'' free'',
      (uvmHeapGrow 0x80100000 0x3000 0x1800).Runs fewPages 0x4800 mem' ∧
      (uvmHeapUngrow 0x80100000 0x4800 0x1800).Runs mem' 0x3000 mem'' ∧
      Restored (fun _ : Unit => 0x80100000) fewPages fewPagesFree mem''
        free'' := by
  obtain ⟨mem', free', pages, grows, _, _, _, _, _, _, _,
    ⟨mem'', free'', shrinks, restored⟩, _⟩ := heapGrow_inverse (r := ())
      freeLists_fewPages tables_fewPages (by decide) 0x3000 0x1800 (by decide)
      (unmapped_fewPages _ _) (by decide +kernel) enough_fewPages
  exact ⟨mem', mem'', free'', grows, shrinks, restored⟩

/-- `fewPages` with a page at the place of the trapframe. -/
theorem trapframe_fewPages :
    ∃ mem free, Mapped (fun _ : Unit => 0x80100000) () (pageOf trapframeVa) 1
        (fun _ => leafPte 0x80200000 (pteR ||| pteW)) fewPages fewPagesFree
        mem free ∧
      Enough mem.bytes 0x80100000 free
        (tablesOf trapframeVa 1 ∪ tablesOf 0x3000 2) := by
  have enough : Enough fewPages.bytes 0x80100000 fewPagesFree
      (tablesOf trapframeVa 1 ∪ tablesOf 0x3000 2) := by
    unfold Enough
    decide +kernel
  have along : ∀ level < 2, pathTo trapframeVa level ∈
      tablesOf trapframeVa 1 ∪ tablesOf 0x3000 2 := by
    intro level bound
    have member := @pathTo_mem_tablesOf trapframeVa 1 0 level
      Nat.zero_lt_one bound
    rw [offset_zero] at member
    exact Finset.mem_union_left _ member
  have aligned : Aligned trapframeVa := by decide
  have low : trapframeVa.toNat + 4096 ≤ 2 ^ 38 := by decide
  have present : (fun _ : Unit => (0x80100000 : UInt64)) () ≠ 0 := by decide
  obtain ⟨mem, free, _, mapped, enough'⟩ := Filled.vmMappages_enough
    tables_fewPages freeLists_fewPages present aligned low 0x80200000
    (pteR ||| pteW) along enough
  exact ⟨mem, free, mapped, enough'⟩

/-- `fewPages` does not have the three user pages that are asked for. -/
theorem heapGrow_rollsBack_fewPages :
    ∃ mem free mem' free', (free false).length = 2 ∧
      (uvmHeapGrow 0x80100000 0x3000 0x2800).Runs mem 0x3000 mem' ∧
      Restored (fun _ : Unit => 0x80100000) mem free mem' free' := by
  obtain ⟨mem, free, mapped, enough⟩ := trapframe_fewPages
  have user : (free false).length = 2 := by
    rw [mapped.user]
    rfl
  have isTrapframe : translate mem.bytes 0x80100000 trapframeVa ≠ none := by
    have eq : translate mem.bytes 0x80100000 trapframeVa =
        if Canonical trapframeVa then
          leafOf (pteAt mem.bytes 0x80100000 trapframeVa) trapframeVa
        else none := translate_eq (r := ()) mapped.tables (by decide) _
    have entry : pteAt mem.bytes 0x80100000 trapframeVa =
        leafPte 0x80200000 (pteR ||| pteW) :=
      mapped.inside 0 Nat.zero_lt_one trapframeVa rfl
    rw [eq, entry, if_pos (by decide)]
    unfold leafOf
    rw [if_pos (isValid_leafPte _ _)]
    exact Option.some_ne_none _
  have unmapped : Unmapped mem 0x80100000 0x3000 (0x3000 + 0x2800) := by
    intro va _ less
    have stop : (pageAlign (0x3000 + 0x2800)).toNat = 0x6000 := by decide
    have isPage : pageOf trapframeVa = 2 ^ 26 - 2 := rfl
    rw [UInt64.lt_iff_toNat_lt, stop] at less
    have eq : translate mem.bytes 0x80100000 va =
        if Canonical va then leafOf (pteAt mem.bytes 0x80100000 va) va
        else none := translate_eq (r := ()) mapped.tables (by decide) va
    have same : pteAt mem.bytes 0x80100000 va = 0 := by
      rw [← pteAt_fewPages va]
      refine mapped.outside () va ?_
      rw [isPage]
      unfold pageOf
      omega
    rw [eq, same]
    unfold leafOf
    rw [not_isValid_zero]
    exact ite_self _
  have enoughTables : Enough mem.bytes 0x80100000 free
      (tablesOf (pageAlign 0x3000) (free false).length) := by
    rw [user]
    exact Nat.le_trans (Finset.card_le_card (Finset.filter_subset_filter _
      Finset.subset_union_right)) enough
  obtain ⟨mem', free', run, restored⟩ := heapGrow_rollsBack (r := ())
    mapped.lists mapped.tables (by decide) 0x3000 0x2800 (by decide)
    isTrapframe unmapped (by rw [user]; decide) enoughTables
  exact ⟨mem, free, mem', free', user, run, restored⟩

end Mem
end WhuOs
