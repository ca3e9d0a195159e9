import Mathlib.Data.Finset.Prod
import WhuOs.Mem.Mapping

/-!
# Address translation

The walk of the memory management unit through a three-level page table, and
what `vm_mappages` and `vm_unmappages` do to the addresses it finds.
-/

namespace WhuOs
namespace Mem

open Library
open Library.Bytes
open Program (Runs)

/-! ## The walk -/

/-- The walk from a table of a level on.  A valid entry above the last level
that permits an access stands for a larger page, which must be aligned.  The
walk gives the physical address and the flags of the entry that ends it; what
the flags permit is checked afterwards. -/
def sv39Walk (bytes : Bytes) (va : UInt64) :
    (level : Nat) → (pgtbl : UInt64) → Option (UInt64 × UInt64)
  | 0, pgtbl =>
      let pte := read64 bytes (entryAddress pgtbl (vaToVpn va 0)).toNat
      if isValid pte then
        some (pteToPa pte + va % 4096, pteFlags pte)
      else
        none
  | level + 1, pgtbl =>
      let pte :=
        read64 bytes (entryAddress pgtbl (vaToVpn va (level + 1))).toNat
      let size := UInt64.ofNat (2 ^ (12 + 9 * (level + 1)))
      if isValid pte ∧ pteCheck pte then
        sv39Walk bytes va level (pteToPa pte)
      else if isValid pte ∧ pteToPa pte % size = 0 then
        some (pteToPa pte + va % size, pteFlags pte)
      else
        none

/-- Virtual addresses have 39 bits and are extended by their sign. -/
def Canonical (va : UInt64) : Prop :=
  va.toNat < 2 ^ 38 ∨ 2 ^ 64 - 2 ^ 38 ≤ va.toNat

instance (va : UInt64) : Decidable (Canonical va) :=
  inferInstanceAs (Decidable (_ ∨ _))

/-- The physical address and the flags for a virtual address. -/
def translate (bytes : Bytes) (pgtbl va : UInt64) : Option (UInt64 × UInt64) :=
  if Canonical va then sv39Walk bytes va 2 pgtbl else none

/-- The physical address and the flags an entry of the last level gives. -/
def leafOf (pte va : UInt64) : Option (UInt64 × UInt64) :=
  if isValid pte then some (pteToPa pte + va % 4096, pteFlags pte) else none

variable {ρ : Type} {root : ρ → UInt64} {mem mem' : State}
  {free free' : Bool → List UInt64} {r : ρ} {va : UInt64}

theorem read_entry
    (tables : Tables mem.bytes root free) {level : Nat} (bound : level ≤ 2) :
    read64 mem.bytes (entryAddress
        (tableAt mem.bytes (root r) (pathTo va level))
        (vaToVpn va level)).toNat =
      entryOf mem.bytes (tableAt mem.bytes (root r) (pathTo va level))
        (vpn va level) := by
  rw [entryAddress_vpn (tables.aligned_tableAt r _) va bound]
  rfl

/-- The walk ends at the entry of the last level. -/
theorem sv39Walk_eq
    (tables : Tables mem.bytes root free) {level : Nat} (bound : level ≤ 2)
    (present : tableAt mem.bytes (root r) (pathTo va level) ≠ 0) :
    sv39Walk mem.bytes va level
        (tableAt mem.bytes (root r) (pathTo va level)) =
      leafOf (pteAt mem.bytes (root r) va) va := by
  induction level with
  | zero =>
      unfold pteAt leafOf
      rw [sv39Walk, read_entry tables bound, if_neg present]
  | succ level inductionHypothesis =>
      have short : (pathTo va (level + 1)).length < 2 := by
        rw [pathTo_length va bound]
        omega
      rw [sv39Walk, read_entry tables bound]
      cases valid : isValid (entryOf mem.bytes
          (tableAt mem.bytes (root r) (pathTo va (level + 1)))
          (vpn va (level + 1))) with
      | true =>
          have isPointer := (tables.pointer r _ _ short present valid).1
          rw [if_pos ⟨rfl, isPointer⟩,
            ← tableAt_pathTo_of_isValid bound present valid]
          exact inductionHypothesis (Nat.le_of_succ_le bound)
            (tableAt_pathTo_ne_zero tables bound present valid)
      | false =>
          have absent := tableAt_pathTo_zero _ _ _ (Nat.le_of_succ_le bound)
            (tableAt_pathTo_of_not_isValid bound present valid)
          unfold pteAt leafOf
          rw [if_pos absent, not_isValid_zero]
          simp

/-- Addresses are translated by the entries of the last level. -/
theorem translate_eq
    (tables : Tables mem.bytes root free) (present : root r ≠ 0)
    (va : UInt64) :
    translate mem.bytes (root r) va =
      if Canonical va then leafOf (pteAt mem.bytes (root r) va) va
      else none := by
  have walk : sv39Walk mem.bytes va 2 (root r) = _ :=
    sv39Walk_eq tables (Nat.le_refl 2) present
  unfold translate
  rw [walk]

/-! ## Ranges -/

theorem leafOf_aligned
    {pte : UInt64} (aligned : Aligned va) :
    leafOf pte va =
      if isValid pte then some (pteToPa pte, pteFlags pte) else none := by
  have noOffset : va % 4096 = 0 := by
    apply UInt64.toNat.inj
    rw [UInt64.toNat_mod]
    exact aligned
  unfold leafOf
  rw [noOffset, UInt64.add_zero]

/-- What a walk finds for the first address of a page. -/
theorem translate_eq_some_iff
    (tables : Tables mem.bytes root free) (present : root r ≠ 0)
    (aligned : Aligned va) {page flags : UInt64} :
    translate mem.bytes (root r) va = some (page, flags) ↔
      Canonical va ∧ isValid (pteAt mem.bytes (root r) va) = true ∧
        pteToPa (pteAt mem.bytes (root r) va) = page ∧
        pteFlags (pteAt mem.bytes (root r) va) = flags := by
  rw [translate_eq tables present, leafOf_aligned aligned]
  by_cases canonical : Canonical va
  · rw [if_pos canonical]
    by_cases valid : isValid (pteAt mem.bytes (root r) va) = true
    · simp [canonical, valid]
    · simp [valid]
  · simp [canonical]

theorem translate_eq_none_iff
    (tables : Tables mem.bytes root free) (present : root r ≠ 0)
    (canonical : Canonical va) :
    translate mem.bytes (root r) va = none ↔
      isValid (pteAt mem.bytes (root r) va) = false := by
  rw [translate_eq tables present, if_pos canonical]
  unfold leafOf
  cases isValid (pteAt mem.bytes (root r) va) <;> simp

section Range

variable {start stop : UInt64} {pages : Nat}

/-- A canonical address in a page of the range is in the range. -/
theorem PageRange.mem_iff
    (range : PageRange start stop pages) {va : UInt64}
    (canonical : Canonical va) :
    (start ≤ va ∧ va < stop) ↔
      start.toNat / 4096 ≤ pageOf va ∧
        pageOf va < start.toNat / 4096 + pages := by
  have ends := range.ends
  have low := range.low
  have aligned := range.aligned
  have bound := va.toNat_lt
  unfold Canonical at canonical
  unfold Aligned at aligned
  unfold pageOf
  rw [UInt64.le_iff_toNat_le, UInt64.lt_iff_toNat_lt]
  omega

theorem PageRange.address_toNat
    (range : PageRange start stop pages) {offset : UInt64}
    (bound : offset.toNat < 4096 * pages) :
    (start + offset).toNat = start.toNat + offset.toNat := by
  have ends := range.ends
  have low := range.low
  rw [UInt64.toNat_add]
  omega

theorem PageRange.canonical
    (range : PageRange start stop pages) {offset : UInt64}
    (bound : offset.toNat < 4096 * pages) : Canonical (start + offset) := by
  have ends := range.ends
  have low := range.low
  unfold Canonical
  rw [range.address_toNat bound]
  omega

theorem PageRange.pageOf_address
    (range : PageRange start stop pages) {offset : UInt64}
    (bound : offset.toNat < 4096 * pages) :
    pageOf (start + offset) = start.toNat / 4096 + offset.toNat / 4096 := by
  have ends := range.ends
  have low := range.low
  have aligned := range.aligned
  unfold Aligned at aligned
  unfold pageOf
  rw [range.address_toNat bound]
  omega

/-- The translations outside a range do not change. -/
theorem Mapped.translate_outside
    {entry : Nat → UInt64} (range : PageRange start stop pages)
    (mapped : Mapped root r (start.toNat / 4096) pages entry mem free mem'
      free')
    (tables : Tables mem.bytes root free) {r' : ρ} (present : root r' ≠ 0)
    (outside : ¬(r' = r ∧ start ≤ va ∧ va < stop)) :
    translate mem'.bytes (root r') va = translate mem.bytes (root r') va := by
  rw [translate_eq mapped.tables present, translate_eq tables present]
  by_cases canonical : Canonical va
  · rw [if_pos canonical, if_pos canonical, mapped.outside r' va]
    rintro ⟨same, inside⟩
    exact outside ⟨same, (range.mem_iff canonical).mpr inside⟩
  · rw [if_neg canonical, if_neg canonical]

/-- The translations of a range come from the entries that were stored. -/
theorem Mapped.translate_inside
    {entry : Nat → UInt64} (range : PageRange start stop pages)
    (mapped : Mapped root r (start.toNat / 4096) pages entry mem free mem'
      free')
    (present : root r ≠ 0) {offset : UInt64}
    (bound : offset.toNat < 4096 * pages) :
    translate mem'.bytes (root r) (start + offset) =
      leafOf (entry (offset.toNat / 4096)) (start + offset) := by
  have index : offset.toNat / 4096 < pages :=
    Nat.div_lt_of_lt_mul bound
  rw [translate_eq mapped.tables present, if_pos (range.canonical bound),
    mapped.inside _ index _ (range.pageOf_address bound)]

/-- The address of a byte of a page that is mapped. -/
theorem leafOf_leafPte
    {pa perm offset : UInt64} (range : PageRange start stop pages)
    (bound : offset.toNat < 4096 * pages) (aligned : Aligned pa)
    (flags : perm.toNat < 1024) :
    leafOf (leafPte (pa + 4096 * UInt64.ofNat (offset.toNat / 4096)) perm)
        (start + offset) =
      some (pa + offset, perm ||| pteV) := by
  have size : (4096 : UInt64).toNat = 4096 := rfl
  have offsetBound := offset.toNat_lt
  have pageAligned :
      Aligned (pa + 4096 * UInt64.ofNat (offset.toNat / 4096)) := by
    unfold Aligned at aligned ⊢
    rw [UInt64.toNat_add, UInt64.toNat_mul, size, UInt64.toNat_ofNat']
    omega
  have sum : pa + 4096 * UInt64.ofNat (offset.toNat / 4096) +
      (start + offset) % 4096 = pa + offset := by
    have startAligned := range.aligned
    unfold Aligned at startAligned
    apply UInt64.toNat_inj.mp
    rw [UInt64.toNat_add, UInt64.toNat_add, UInt64.toNat_add,
      UInt64.toNat_mul, UInt64.toNat_mod, range.address_toNat bound, size,
      UInt64.toNat_ofNat']
    omega
  unfold leafOf
  rw [if_pos (isValid_leafPte _ _), pteToPa_leafPte pageAligned flags,
    pteFlags_leafPte flags, sum]

end Range

/-- The tables on the way to the entries of a range of pages. -/
def tablesOf (start : UInt64) (pages : Nat) : Finset (List (Fin 512)) :=
  (Finset.range pages ×ˢ Finset.range 2).image fun place =>
    pathTo (start + 4096 * UInt64.ofNat place.1) place.2

theorem pathTo_mem_tablesOf
    {start : UInt64} {pages index level : Nat} (bound : index < pages)
    (bound' : level < 2) :
    pathTo (start + 4096 * UInt64.ofNat index) level ∈
      tablesOf start pages := by
  refine Finset.mem_image.mpr ⟨(index, level), ?_, rfl⟩
  exact Finset.mem_product.mpr
    ⟨Finset.mem_range.mpr bound, Finset.mem_range.mpr bound'⟩

theorem pageRange_of_aligned
    {va len : UInt64} (aligned : Aligned va) (whole : Aligned len)
    (low : va.toNat + len.toNat ≤ 2 ^ 38) :
    PageRange va (va + len) (len.toNat / 4096) := by
  unfold Aligned at whole
  have sum : (va + len).toNat = va.toNat + len.toNat := by
    rw [UInt64.toNat_add]
    omega
  refine ⟨aligned, ?_, ?_⟩
  · omega
  · omega

/-- `vm_mappages` maps a range of pages. -/
theorem vmMappages_translate
    [DecidableEq ρ] (tables : Tables mem.bytes root free)
    (lists : FreeLists mem free) {pgtbl : UInt64}
    (isRoot : rootOf mem pgtbl = root r) (present : root r ≠ 0)
    {va pa len perm : UInt64} (vaAligned : Aligned va)
    (lenAligned : Aligned len) (low : va.toNat + len.toNat ≤ 2 ^ 38)
    (paAligned : Aligned pa) (flags : perm.toNat < 1024)
    (enough : Enough mem.bytes (root r) free
      (tablesOf va (len.toNat / 4096))) :
    ∃ mem' free', (vmMappages pgtbl va pa len perm).Runs mem () mem' ∧
      FreeLists mem' free' ∧ Tables mem'.bytes root free' ∧
      (∀ offset < len, translate mem'.bytes (root r) (va + offset) =
        some (pa + offset, perm ||| pteV)) ∧
      ∀ r' va', root r' ≠ 0 → ¬(r' = r ∧ va ≤ va' ∧ va' < va + len) →
        translate mem'.bytes (root r') va' =
          translate mem.bytes (root r') va' := by
  have range := pageRange_of_aligned vaAligned lenAligned low
  have fuel : len.toNat / 4096 ≤ (va + len - va).toNat / pgSize + 1 := by
    rw [UInt64.add_comm, UInt64.add_sub_cancel]
    exact Nat.le_succ _
  obtain ⟨mem', run⟩ := mapLoop_total tables lists isRoot present range
    (fun index bound level bound' => pathTo_mem_tablesOf bound bound') enough
  obtain ⟨free', mapped⟩ := mapLoop_mapped tables lists isRoot present
    range fuel run
  refine ⟨mem', free', run, mapped.lists, mapped.tables, ?_, ?_⟩
  · intro offset bound
    have inside : offset.toNat < 4096 * (len.toNat / 4096) := by
      unfold Aligned at lenAligned
      rw [UInt64.lt_iff_toNat_lt] at bound
      omega
    rw [mapped.translate_inside range present inside,
      leafOf_leafPte range inside paAligned flags]
  · intro r' va' present' outside
    exact mapped.translate_outside range tables present' outside

/-- `vm_unmappages` over a range that is mapped. -/
theorem vmUnmappages_translate
    [DecidableEq ρ] (tables : Tables mem.bytes root free)
    (lists : FreeLists mem free) {pgtbl : UInt64}
    (isRoot : rootOf mem pgtbl = root r) (present : root r ≠ 0)
    {va len : UInt64} (vaAligned : Aligned va)
    (lenAligned : Aligned len) (low : va.toNat + len.toNat ≤ 2 ^ 38)
    (isMapped : ∀ offset < len,
      translate mem.bytes (root r) (va + offset) ≠ none) :
    ∃ mem', (vmUnmappages pgtbl va len false).Runs mem () mem' ∧
      FreeLists mem' free ∧ Tables mem'.bytes root free ∧
      (∀ offset < len, translate mem'.bytes (root r) (va + offset) = none) ∧
      ∀ r' va', root r' ≠ 0 → ¬(r' = r ∧ va ≤ va' ∧ va' < va + len) →
        translate mem'.bytes (root r') va' =
          translate mem.bytes (root r') va' := by
  have range := pageRange_of_aligned vaAligned lenAligned low
  have fuel : len.toNat / 4096 ≤ (va + len - va).toNat / pgSize + 1 := by
    rw [UInt64.add_comm, UInt64.add_sub_cancel]
    exact Nat.le_succ _
  have valid : ∀ index < len.toNat / 4096, ∀ va',
      pageOf va' = va.toNat / 4096 + index →
      isValid (pteAt mem.bytes (root r) va') = true := by
    intro index bound va' isPage
    have address : (4096 * UInt64.ofNat index).toNat = 4096 * index := by
      have size : (4096 : UInt64).toNat = 4096 := rfl
      rw [UInt64.toNat_mul, size, UInt64.toNat_ofNat']
      omega
    have inside : (4096 * UInt64.ofNat index).toNat <
        4096 * (len.toNat / 4096) := by
      omega
    have found := isMapped (4096 * UInt64.ofNat index) (by
      rw [UInt64.lt_iff_toNat_lt]
      omega)
    rw [translate_eq tables present, if_pos (range.canonical inside)] at found
    have samePage : pageOf (va + 4096 * UInt64.ofNat index) = pageOf va' := by
      rw [range.pageOf_address inside, isPage, address]
      omega
    rw [← pteAt_congr samePage]
    by_contra invalid
    exact found (if_neg invalid)
  obtain ⟨mem', run, mapped⟩ := unmapLoop_mapped tables lists isRoot
    present range fuel valid
  refine ⟨mem', run, mapped.lists, mapped.tables, ?_, ?_⟩
  · intro offset bound
    have inside : offset.toNat < 4096 * (len.toNat / 4096) := by
      unfold Aligned at lenAligned
      rw [UInt64.lt_iff_toNat_lt] at bound
      omega
    rw [mapped.translate_inside range present inside]
    rfl
  · intro r' va' present' outside
    exact mapped.translate_outside range tables present' outside

/-- `vm_getpte` returns a null pointer exactly when a table is missing. -/
theorem vmGetpte_null
    (tables : Tables mem.bytes root free) {pgtbl : UInt64}
    (isRoot : rootOf mem pgtbl = root r) (present : root r ≠ 0)
    (low : va < vaMax) :
    ∃ pointer, (vmGetpte pgtbl va false).Runs mem pointer mem ∧
      (pointer = 0 ↔
        ∃ level < 2, tableAt mem.bytes (root r) (pathTo va level) = 0) := by
  refine ⟨_, (vmGetpte_lookup tables isRoot present).mpr ⟨low, rfl, rfl⟩, ?_⟩
  rw [entryPointer_eq_zero tables]
  constructor
  · intro absent
    exact ⟨0, Nat.zero_lt_two, absent⟩
  · rintro ⟨level, bound, absent⟩
    exact tableAt_pathTo_zero _ _ _ (Nat.le_of_lt bound) absent

/-- Page tables are maps from virtual pages to physical pages: `vm_mappages` and
`vm_unmappages` change the translations of the range they are called for and no
others, and `vm_getpte` finds every entry whose tables are there. -/
theorem pageTables_implement_map
    [DecidableEq ρ] (tables : Tables mem.bytes root free)
    (lists : FreeLists mem free) {pgtbl : UInt64}
    (isRoot : rootOf mem pgtbl = root r) (present : root r ≠ 0)
    (va pa len perm : UInt64) (vaAligned : Aligned va)
    (lenAligned : Aligned len) (low : va.toNat + len.toNat ≤ 2 ^ 38)
    (paAligned : Aligned pa) (flags : perm.toNat < 1024) :
    (Enough mem.bytes (root r) free (tablesOf va (len.toNat / 4096)) →
      ∃ mem' free', (vmMappages pgtbl va pa len perm).Runs mem () mem' ∧
        FreeLists mem' free' ∧ Tables mem'.bytes root free' ∧
        (∀ offset < len, translate mem'.bytes (root r) (va + offset) =
          some (pa + offset, perm ||| pteV)) ∧
        ∀ r' va', root r' ≠ 0 → ¬(r' = r ∧ va ≤ va' ∧ va' < va + len) →
          translate mem'.bytes (root r') va' =
            translate mem.bytes (root r') va') ∧
    ((∀ offset < len, translate mem.bytes (root r) (va + offset) ≠ none) →
      ∃ mem', (vmUnmappages pgtbl va len false).Runs mem () mem' ∧
        FreeLists mem' free ∧ Tables mem'.bytes root free ∧
        (∀ offset < len,
          translate mem'.bytes (root r) (va + offset) = none) ∧
        ∀ r' va', root r' ≠ 0 → ¬(r' = r ∧ va ≤ va' ∧ va' < va + len) →
          translate mem'.bytes (root r') va' =
            translate mem.bytes (root r') va') ∧
    ∀ va' < vaMax, ∃ pointer, (vmGetpte pgtbl va' false).Runs mem pointer mem ∧
      (pointer = 0 ↔
        ∃ level < 2, tableAt mem.bytes (root r) (pathTo va' level) = 0) :=
  ⟨vmMappages_translate tables lists isRoot present vaAligned lenAligned low
      paAligned flags,
    vmUnmappages_translate tables lists isRoot present vaAligned lenAligned
      low,
    fun _ => vmGetpte_null tables isRoot present⟩

/-! ## An empty page table -/

/-- Below a table without entries there are no tables. -/
theorem tableAt_empty
    {bytes : Bytes} {table : UInt64}
    (empty : ∀ index, entryOf bytes table index = 0) {path : List (Fin 512)}
    (proper : path ≠ []) : tableAt bytes table path = 0 := by
  cases path with
  | nil => exact absurd rfl proper
  | cons index rest =>
      have none : childOf bytes table index = 0 :=
        childOf_eq_zero (by rw [empty, not_isValid_zero])
      unfold tableAt Forest.value
      rw [none, Forest.value_null, ite_self]

theorem pteAt_empty
    {bytes : Bytes} {table : UInt64}
    (empty : ∀ index, entryOf bytes table index = 0) (va : UInt64) :
    pteAt bytes table va = 0 :=
  if_pos (tableAt_empty empty (List.cons_ne_nil _ _))

/-- Tables without entries are page tables. -/
theorem Tables.empty
    {bytes : Bytes} (taken : ∀ r, Taken free (root r))
    (empty : ∀ r index, entryOf bytes (root r) index = 0)
    (distinct : ∀ r r', root r = root r' → r = r') :
    Tables bytes root free := by
  have only : ∀ r (path : List (Fin 512)),
      tableAt bytes (root r) path ≠ 0 → path = [] := by
    intro r path present
    by_contra proper
    exact present (tableAt_empty (empty r) proper)
  refine ⟨fun r => (taken r).aligned, ⟨fun r path _ present => ?_,
    fun r r' path path' _ _ present equal => ?_⟩,
    fun r path index _ present valid => ?_⟩
  · rw [only r path present]
    exact taken r
  · have present' : tableAt bytes (root r') path' ≠ 0 :=
      fun absent => present (equal.trans absent)
    obtain rfl := only r path present
    obtain rfl := only r' path' present'
    exact ⟨distinct r r' equal, rfl⟩
  · rw [only r path present] at valid
    change isValid (entryOf bytes (root r) index) = true at valid
    rw [empty, not_isValid_zero] at valid
    cases valid

/-- Memory with two free pages of the kernel. -/
def twoPages : State :=
  ⟨write64 (fun _ => 0) (0x80101000 : UInt64).toNat 0x80102000,
    ⟨0x80100000, 0x80103000, 2, 0x80101000⟩, ⟨0x80103000, 0x80103000, 0, 0⟩, 0⟩

/-- The free pages of `twoPages`. -/
def twoPagesFree : Bool → List UInt64
  | true => [0x80101000, 0x80102000]
  | false => []

theorem freeLists_twoPages : FreeLists twoPages twoPagesFree := by
  constructor
  · intro inKernel
    cases inKernel with
    | true => exact ⟨rfl, by decide, rfl, by decide, rfl⟩
    | false => rfl
  · decide
  · decide
  · intro inKernel other page member member'
    cases inKernel <;> cases other <;> trivial
  · exact fun inKernel => forall_of_all (by cases inKernel <;> decide)

theorem tables_twoPages :
    Tables twoPages.bytes (fun _ : Unit => 0x80100000) twoPagesFree := by
  refine Tables.empty (fun _ => ⟨by decide, by decide⟩) (fun _ index => ?_)
    fun _ _ _ => rfl
  have changed : ChangedIn 0x80101000 (fun _ => 0) twoPages.bytes :=
    @changedIn_store 0x80101000 0x80102000 0 _
  have zero : ∀ index, entryOf (fun _ => 0) 0x80100000 index = 0 := by
    intro index
    apply read64_of_byteOf
    intro offset bound
    interval_cases offset <;> rfl
  rw [entryOf_of_ne changed (by decide) (by decide) (by decide), zero]

theorem enough_twoPages :
    Enough twoPages.bytes 0x80100000 twoPagesFree
      (tablesOf 0x1000 ((0x2000 : UInt64).toNat / 4096)) := by
  refine Nat.le_trans (Finset.card_filter_le _ _) ?_
  decide

/-- Two pages are mapped and unmapped again. -/
theorem pageTables_implement_map_twoPages :
    ∃ mem' mem'', (vmMappages 0x80100000 0x1000 0x80200000 0x2000
        (pteR ||| pteW)).Runs twoPages () mem' ∧
      translate mem'.bytes 0x80100000 0x2004 =
        some (0x80201004, pteR ||| pteW ||| pteV) ∧
      (vmUnmappages 0x80100000 0x1000 0x2000 false).Runs mem' () mem'' ∧
      translate mem''.bytes 0x80100000 0x2004 = none := by
  have range : (0x1000 : UInt64).toNat + (0x2000 : UInt64).toNat ≤ 2 ^ 38 := by
    decide
  have isRoot : ∀ mem, rootOf mem 0x80100000 =
      (fun _ : Unit => 0x80100000) () := fun _ => rfl
  obtain ⟨map, -, -⟩ := pageTables_implement_map (r := ()) tables_twoPages
    freeLists_twoPages (isRoot twoPages) (by decide) 0x1000 0x80200000 0x2000
    (pteR ||| pteW) (by decide) (by decide) range (by decide) (by decide)
  obtain ⟨mem', free', run, lists, tables, inside, -⟩ := map enough_twoPages
  obtain ⟨-, unmap, -⟩ := pageTables_implement_map (r := ()) tables lists
    (isRoot mem') (by decide) 0x1000 0x80200000 0x2000 (pteR ||| pteW)
    (by decide) (by decide) range (by decide) (by decide)
  obtain ⟨mem'', run', -, -, outside, -⟩ := unmap fun offset bound => by
    rw [inside offset bound]
    exact Option.some_ne_none _
  exact ⟨mem', mem'', run, inside 0x1004 (by decide), run',
    outside 0x1004 (by decide)⟩

end Mem
end WhuOs
