import WhuOs.Mem.Sv39

/-!
# Running out of table pages

`vm_mappages` checks the pointer that `vm_getpte` returns, but `vm_getpte` does
not check the page it takes for a table.  A kernel region that runs out of pages
ends every walk that needs a table with a write through a null pointer.
-/

namespace WhuOs
namespace Mem

open Library
open Library.Bytes
open Program (Runs)

variable {ρ : Type} {root : ρ → UInt64} {mem mem' : State}
  {free : Bool → List UInt64} {r : ρ} {va : UInt64}

/-! ## What is to be reported -/

/-- Only tables are written, and the new ones were free pages of the kernel. -/
structure TablesOnly (root : ρ → UInt64) (mem : State)
    (free : Bool → List UInt64) (mem' : State) : Prop where
  written : ∀ address, mem'.bytes address ≠ mem.bytes address →
    ∃ r path, path.length ≤ 2 ∧
      InPage address (tableAt mem'.bytes (root r) path)
  allocated : ∀ r path, path.length ≤ 2 →
    tableAt mem'.bytes (root r) path ≠ tableAt mem.bytes (root r) path →
    tableAt mem'.bytes (root r) path ∈ free true

/-- When the kernel has fewer pages than tables are missing on the way to an
entry, `vm_getpte` returns a null pointer. -/
def GetpteReports (root : ρ → UInt64) (r : ρ) (mem : State)
    (free : Bool → List UInt64) (pgtbl va : UInt64) : Prop :=
  va < vaMax → ¬Enough mem.bytes (root r) free (tablesOf va 1) →
    ∃ mem', (vmGetpte pgtbl va true).Runs mem 0 mem' ∧
      TablesOnly root mem free mem'

/-- The pages that `vm_mappages` walks to, up to the end of its range or of the
address space. -/
def walkedPages (start stop : UInt64) : Nat :=
  (min stop.toNat (2 ^ 38) - start.toNat + 4095) / 4096

/-- When the kernel has fewer pages than tables are missing on the way to the
entries of a range, `vm_mappages` stops at its check. -/
def MappagesReports (root : ρ → UInt64) (r : ρ) (mem : State)
    (free : Bool → List UInt64) (pgtbl va pa len perm : UInt64) : Prop :=
  ¬Enough mem.bytes (root r) free
      (tablesOf va (walkedPages va (va + len))) →
    (vmMappages pgtbl va pa len perm).exec mem =
      .error "vm_mappages: getpte fail"

/-! ## Walks -/

theorem enough_of_present
    {paths : Finset (List (Fin 512))}
    (present : ∀ path ∈ paths, path.length ≤ 2 →
      tableAt mem.bytes (root r) path ≠ 0) :
    Enough mem.bytes (root r) free paths := by
  have none : missing mem.bytes (root r) paths = ∅ := by
    refine Finset.filter_eq_empty_iff.mpr fun path member => ?_
    rintro ⟨bound, absent⟩
    exact present path member bound absent
  unfold Enough
  rw [none, Finset.card_empty]
  exact Nat.zero_le _

theorem mem_tablesOf
    {start : UInt64} {pages : Nat} {path : List (Fin 512)} :
    path ∈ tablesOf start pages ↔ ∃ index < pages, ∃ level < 2,
      pathTo (start + 4096 * UInt64.ofNat index) level = path := by
  unfold tablesOf
  simp only [Finset.mem_image, Finset.mem_product, Finset.mem_range,
    Prod.exists]
  constructor
  · rintro ⟨index, level, ⟨bound, bound'⟩, isPath⟩
    exact ⟨index, bound, level, bound', isPath⟩
  · rintro ⟨index, bound, level, bound', isPath⟩
    exact ⟨index, level, ⟨bound, bound'⟩, isPath⟩

theorem mem_tablesOf_one {path : List (Fin 512)} :
    path ∈ tablesOf va 1 ↔ ∃ level < 2, pathTo va level = path := by
  rw [mem_tablesOf]
  constructor
  · rintro ⟨index, bound, level, bound', isPath⟩
    obtain rfl := Nat.lt_one_iff.mp bound
    rw [offset_zero] at isPath
    exact ⟨level, bound', isPath⟩
  · rintro ⟨level, bound, isPath⟩
    refine ⟨0, Nat.one_pos, level, bound, ?_⟩
    rw [offset_zero]
    exact isPath

/-- The tables of a range are those of its first page and of the others. -/
theorem mem_tablesOf_succ
    {start : UInt64} {pages : Nat} {path : List (Fin 512)} :
    path ∈ tablesOf start (pages + 1) ↔
      path ∈ tablesOf start 1 ∨ path ∈ tablesOf (start + 4096) pages := by
  rw [mem_tablesOf_one, mem_tablesOf, mem_tablesOf]
  constructor
  · rintro ⟨index, bound, level, bound', isPath⟩
    cases index with
    | zero =>
        rw [offset_zero] at isPath
        exact Or.inl ⟨level, bound', isPath⟩
    | succ index =>
        rw [offset_succ] at isPath
        exact Or.inr ⟨index, Nat.lt_of_succ_lt_succ bound, level, bound',
          isPath⟩
  · rintro (⟨level, bound, isPath⟩ | ⟨index, bound, level, bound', isPath⟩)
    · refine ⟨0, Nat.succ_pos pages, level, bound, ?_⟩
      rw [offset_zero]
      exact isPath
    · refine ⟨index + 1, Nat.succ_lt_succ bound, level, bound', ?_⟩
      rw [offset_succ]
      exact isPath

/-- Below an entry of the last level no table is missing. -/
theorem present_of_leaf
    (present : tableAt mem.bytes (root r) (pathTo va 0) ≠ 0) :
    ∀ path ∈ tablesOf va 1, path.length ≤ 2 →
      tableAt mem.bytes (root r) path ≠ 0 := by
  intro path member _ absent
  obtain ⟨level, bound, rfl⟩ := mem_tablesOf_one.mp member
  exact present (tableAt_pathTo_zero _ _ va (Nat.le_of_lt bound) absent)

variable [DecidableEq ρ]

/-- The loop of `vm_getpte` faults when the kernel has too few pages. -/
theorem walkTables_exhausted
    (tables : Tables mem.bytes root free) (lists : FreeLists mem free)
    {level : Nat} (bound : level ≤ 2)
    (present : tableAt mem.bytes (root r) (pathTo va level) ≠ 0)
    (few : ¬Enough mem.bytes (root r) free (tablesOf va 1)) :
    (walkTables va true level
      (tableAt mem.bytes (root r) (pathTo va level))).exec mem =
        .error "store page fault" := by
  induction level generalizing mem free with
  | zero => exact absurd (enough_of_present (present_of_leaf present)) few
  | succ level inductionHypothesis =>
      have aligned := tables.aligned_tableAt r (pathTo va (level + 1))
      cases valid : isValid (entryOf mem.bytes
          (tableAt mem.bytes (root r) (pathTo va (level + 1)))
          (vpn va (level + 1))) with
      | true =>
          rw [walkTables, (load_entry aligned va bound mem).exec_bind, valid,
            if_pos rfl, ← tableAt_pathTo_of_isValid bound present valid]
          exact inductionHypothesis tables lists (Nat.le_of_succ_le bound)
            (tableAt_pathTo_ne_zero tables bound present valid) few
      | false =>
          cases isFree : free true with
          | nil => exact walkTables_no_page tables lists isFree bound valid
          | cons fresh rest =>
              obtain ⟨middle, walked, atFresh, same, _⟩ := walkTables_attach
                tables lists isFree bound present valid
              have member : fresh ∈ free true := by
                rw [isFree]
                exact List.mem_cons_self
              have below : tableAt middle.bytes (root r) (pathTo va level) ≠
                  0 := by
                rw [atFresh]
                exact lists.ne_null member
              have along : ∀ level < 2, pathTo va level ∈ tablesOf va 1 :=
                fun level bound => mem_tablesOf_one.mpr ⟨level, bound, rfl⟩
              rw [same, ← atFresh]
              exact inductionHypothesis walked.tables walked.lists
                (Nat.le_of_succ_le bound) below
                (mt (walked.enough _ along).mp few)

section Exhausted

variable (tables : Tables mem.bytes root free) (lists : FreeLists mem free)
  {pgtbl : UInt64} (isRoot : rootOf mem pgtbl = root r) (present : root r ≠ 0)

include tables lists isRoot present

theorem vmGetpte_exhausted
    (low : va < vaMax)
    (few : ¬Enough mem.bytes (root r) free (tablesOf va 1)) :
    (vmGetpte pgtbl va true).exec mem = .error "store page fault" := by
  have walk := walkTables_exhausted tables lists (Nat.le_refl 2) present few
  rw [← isRoot] at walk
  have inside : (Program.assert (va < vaMax)
      "vm_getpte: va out of range").Runs mem () mem :=
    Program.runs_assert.mpr ⟨decide_eq_true low, rfl⟩
  have state : (Program.get : MemM State).Runs mem mem mem :=
    Program.runs_get.mpr ⟨rfl, rfl⟩
  unfold vmGetpte
  rw [state.exec_bind, inside.exec_bind]
  exact walk

/-- `vm_mappages` for one page does not come to its check. -/
theorem mapPage_exhausted
    (value : UInt64) (low : va < vaMax)
    (few : ¬Enough mem.bytes (root r) free (tablesOf va 1)) :
    (mapPage pgtbl va value).exec mem = .error "store page fault" :=
  Program.exec_bind_error
    (vmGetpte_exhausted tables lists isRoot present low few) _

end Exhausted

theorem mapLoop_exec_succ
    {pgtbl start stop pa perm : UInt64} (more : start < stop) (fuel : Nat) :
    (mapLoop pgtbl stop perm (fuel + 1) start pa).exec mem =
      (mapPage pgtbl start (leafPte pa perm) >>= fun _ =>
        mapLoop pgtbl stop perm fuel (start + 4096) (pa + 4096)).exec mem := by
  rw [mapLoop, if_pos more]
  simp only [mapPage, Program.exec_bind]
  cases (vmGetpte pgtbl start true).exec mem with
  | error message => rfl
  | ok outcome =>
      dsimp only
      cases (Program.assert (outcome.1 ≠ 0)
          "vm_mappages: getpte fail").exec outcome.2 with
      | error message => rfl
      | ok checked => rfl

/-- The loop of `vm_mappages` faults when the kernel has too few pages.  The
tables that are known are present or on the way to one of the remaining
pages. -/
theorem mapLoop_exhausted
    (tables : Tables mem.bytes root free) (lists : FreeLists mem free)
    {pgtbl : UInt64} (isRoot : rootOf mem pgtbl = root r)
    (present : root r ≠ 0) {start stop pa perm : UInt64} {pages fuel : Nat}
    (fueled : pages ≤ fuel)
    (below : start.toNat + 4096 * pages ≤ 2 ^ 38 + 4095)
    (inside : start.toNat + 4096 * pages ≤ stop.toNat + 4095)
    {paths : Finset (List (Fin 512))}
    (along : ∀ path ∈ tablesOf start pages, path ∈ paths)
    (known : ∀ path ∈ paths, path.length ≤ 2 →
      tableAt mem.bytes (root r) path ≠ 0 ∨ path ∈ tablesOf start pages)
    (few : ¬Enough mem.bytes (root r) free paths) :
    (mapLoop pgtbl stop perm fuel start pa).exec mem =
      .error "store page fault" := by
  induction pages generalizing start pa fuel mem free with
  | zero =>
      refine absurd (enough_of_present fun path member bound => ?_) few
      refine (known path member bound).resolve_right fun isNext => ?_
      obtain ⟨index, none, _⟩ := mem_tablesOf.mp isNext
      exact absurd none (Nat.not_lt_zero index)
  | succ pages inductionHypothesis =>
      obtain ⟨fuel, rfl⟩ := Nat.exists_eq_succ_of_ne_zero
        (Nat.ne_of_gt (Nat.lt_of_lt_of_le (Nat.succ_pos pages) fueled))
      have more : start < stop := by
        rw [UInt64.lt_iff_toNat_lt]
        omega
      have low : start < vaMax := by
        rw [UInt64.lt_iff_toNat_lt, show vaMax.toNat = 2 ^ 38 from rfl]
        omega
      have next : (start + 4096).toNat = start.toNat + 4096 := by
        rw [UInt64.toNat_add, show (4096 : UInt64).toNat = 4096 from rfl]
        omega
      rw [mapLoop_exec_succ more]
      by_cases enough : Enough mem.bytes (root r) free (tablesOf start 1)
      · have alongFirst : ∀ level < 2, pathTo start level ∈ tablesOf start 1 :=
          fun level bound => mem_tablesOf_one.mpr ⟨level, bound, rfl⟩
        obtain ⟨middle, first⟩ := mapPage_total tables lists isRoot present
          (leafPte pa perm) low alongFirst enough
        obtain ⟨_, free', mapped, kept⟩ := mapPage_mapped tables lists isRoot
          present first
        have valid : isValid (pteAt middle.bytes (root r) start) = true := by
          rw [mapped.inside 0 Nat.one_pos start rfl]
          exact isValid_leafPte pa perm
        rw [first.exec_bind]
        refine inductionHypothesis mapped.tables mapped.lists
          ((rootOf_congr mapped.kernelPgtbl pgtbl).trans isRoot)
          (Nat.le_of_succ_le_succ fueled) (by omega) (by omega)
          (fun path member => along path
            (mem_tablesOf_succ.mpr (Or.inr member)))
          (fun path member bound => ?_) (mt (kept paths fun level bound =>
            along _ (mem_tablesOf_succ.mpr
              (Or.inl (alongFirst level bound)))).mp few)
        rcases known path member bound with isTable | isNext
        · rcases mapped.placed r path bound with same | ⟨absent, _⟩
          · rw [same]
            exact Or.inl isTable
          · exact absurd absent isTable
        · rcases mem_tablesOf_succ.mp isNext with isFirst | isLater
          · exact Or.inl (present_of_leaf (tableAt_of_isValid valid) path
              isFirst bound)
          · exact Or.inr isLater
      · exact Program.exec_bind_error (mapPage_exhausted tables lists isRoot
          present (leafPte pa perm) low enough) _

/-! ## Reports -/

section Reports

variable (tables : Tables mem.bytes root free) (lists : FreeLists mem free)
  {pgtbl : UInt64} (isRoot : rootOf mem pgtbl = root r) (present : root r ≠ 0)

include tables lists isRoot present

theorem vmMappages_exhausted
    (va pa len perm : UInt64)
    (few : ¬Enough mem.bytes (root r) free
      (tablesOf va (walkedPages va (va + len)))) :
    (vmMappages pgtbl va pa len perm).exec mem =
      .error "store page fault" := by
  have some : walkedPages va (va + len) ≠ 0 := by
    intro none
    rw [none] at few
    refine few (enough_of_present fun path member => ?_)
    obtain ⟨index, bound, _⟩ := mem_tablesOf.mp member
    exact absurd bound (Nat.not_lt_zero index)
  have toEnd : min (va + len).toNat (2 ^ 38) ≤ (va + len).toNat :=
    Nat.min_le_left _ _
  have toMax : min (va + len).toNat (2 ^ 38) ≤ 2 ^ 38 := Nat.min_le_right _ _
  unfold walkedPages at some few
  generalize min (va + len).toNat (2 ^ 38) = last at *
  have ordered : va ≤ va + len := by
    rw [UInt64.le_iff_toNat_le]
    omega
  have length := UInt64.toNat_sub_of_le _ _ ordered
  refine mapLoop_exhausted tables lists isRoot present ?_ ?_ ?_
    (fun _ member => member) (fun _ member _ => Or.inr member) few
  · rw [length]
    unfold pgSize
    omega
  · omega
  · omega

/-- Exhaustion of the kernel region is reported exactly when it does not
happen. -/
theorem exhaustion_reported_iff (va pa len perm : UInt64) :
    (GetpteReports root r mem free pgtbl va ↔
      (va < vaMax → Enough mem.bytes (root r) free (tablesOf va 1))) ∧
    (MappagesReports root r mem free pgtbl va pa len perm ↔
      Enough mem.bytes (root r) free
        (tablesOf va (walkedPages va (va + len)))) := by
  refine ⟨⟨fun reports low => ?_, fun enough low few => ?_⟩,
    ⟨fun reports => ?_, fun enough few => absurd enough few⟩⟩
  · by_contra few
    obtain ⟨mem', run, _⟩ := reports low few
    have stops := vmGetpte_exhausted tables lists isRoot present low few
    exact absurd (stops.symm.trans run) nofun
  · exact absurd (enough low) few
  · by_contra few
    have stops := vmMappages_exhausted tables lists isRoot present va pa len
      perm few
    have differs := Except.error.inj (stops.symm.trans (reports few))
    exact absurd differs (by decide)

end Reports

/-- The statement for memory with two free pages. -/
theorem exhaustion_reported_iff_twoPages :
    MappagesReports (fun _ : Unit => 0x80100000) () twoPages twoPagesFree
        0x80100000 0x1000 0x80200000 0x2000 pteR :=
  (exhaustion_reported_iff (r := ()) tables_twoPages freeLists_twoPages
    (if_neg (by decide)) (by decide) 0x1000 0x80200000 0x2000
    pteR).2.mpr enough_twoPages

/-- Memory without free pages. -/
def noPages : State :=
  ⟨fun _ => 0, ⟨0x80100000, 0x80103000, 0, 0⟩, ⟨0x80103000, 0x80103000, 0, 0⟩,
    0⟩

theorem freeLists_noPages : FreeLists noPages fun _ => [] := by
  refine ⟨fun inKernel => ?_, fun inKernel => ?_, fun _ => List.nodup_nil,
    fun _ _ _ => nofun, fun _ _ => nofun⟩ <;> cases inKernel <;> rfl

theorem entryOf_zero (table : UInt64) (index : Fin 512) :
    entryOf (fun _ => 0) table index = 0 :=
  entryOf_of_zero (fun _ _ => rfl) index

theorem tables_noPages :
    Tables noPages.bytes (fun _ : Unit => 0x80100000) fun _ => [] :=
  Tables.empty (fun _ => ⟨by decide, fun _ => List.not_mem_nil⟩)
    (fun _ index => entryOf_zero _ index) fun _ _ _ => rfl

theorem few_noPages :
    ¬Enough noPages.bytes 0x80100000 (fun _ => []) (tablesOf 0 1) := by
  intro enough
  have absent : tableAt noPages.bytes 0x80100000 (pathTo 0 1) = 0 := by
    refine @tableAt_pathTo_of_not_isValid Unit (fun _ => 0x80100000) noPages ()
      0 1 (by decide) (by decide) ?_
    rw [show noPages.bytes = fun _ => 0 from rfl, entryOf_zero]
    exact not_isValid_zero
  have isMissing : pathTo 0 1 ∈ missing noPages.bytes 0x80100000
      (tablesOf 0 1) :=
    Finset.mem_filter.mpr
      ⟨mem_tablesOf_one.mpr ⟨1, by decide, rfl⟩, by decide, absent⟩
  exact Nat.not_lt.mpr enough (Finset.card_pos.mpr ⟨_, isMissing⟩)

/-- A walk that needs a table when the kernel has no page left faults instead
of returning a null pointer. -/
theorem exhaustion_not_reported :
    ¬∀ (root : Unit → UInt64) (mem : State) (free : Bool → List UInt64)
        (pgtbl va pa len perm : UInt64),
      Tables mem.bytes root free → FreeLists mem free →
      rootOf mem pgtbl = root () → root () ≠ 0 →
      GetpteReports root () mem free pgtbl va ∧
        MappagesReports root () mem free pgtbl va pa len perm := by
  intro reports
  have present : (0x80100000 : UInt64) ≠ 0 := by decide
  obtain ⟨mem', run, _⟩ := (reports (fun _ => 0x80100000) noPages (fun _ => [])
    0x80100000 0 0x80200000 4096 pteR tables_noPages freeLists_noPages
    (if_neg present) present).1 (by decide) few_noPages
  have stops : (vmGetpte 0x80100000 0 true).exec noPages =
      .error "store page fault" := rfl
  exact absurd (stops.symm.trans run) nofun

end Mem
end WhuOs
