import Mathlib.Data.Finset.Card
import Mathlib.Data.Finset.Filter
import WhuOs.Mem.Tables

/-!
# Mapping and unmapping

`vm_getpte` finds the entry of a virtual address and adds the tables that are
missing on the way.  `vm_mappages` and `vm_unmappages` change the entries of a
range of pages and no others.
-/

namespace WhuOs
namespace Mem

open Library
open Library.Bytes
open Program (Runs)

variable {ρ : Type} {root : ρ → UInt64} {mem mem' mem'' : State}
  {free free' free'' : Bool → List UInt64} {r : ρ} {va : UInt64}

/-! ## The way to an entry -/

/-- The page table a call is about. -/
def rootOf (mem : State) (pgtbl : UInt64) : UInt64 :=
  if pgtbl = 0 then mem.kernelPgtbl else pgtbl

/-- The pointer to the entry of a virtual address, or 0 if a table is
missing. -/
def entryPointer (bytes : Bytes) (root va : UInt64) : UInt64 :=
  if tableAt bytes root (pathTo va 0) = 0 then 0
  else entryAddress (tableAt bytes root (pathTo va 0)) (vaToVpn va 0)

theorem vaToVpn_eq_vpn (va : UInt64) {level : Nat} (bound : level ≤ 2) :
    (vaToVpn va level).toNat = vpn va level :=
  vaToVpn_toNat va bound

theorem entryAddress_vpn
    {table : UInt64} (aligned : Aligned table) (va : UInt64) {level : Nat}
    (bound : level ≤ 2) :
    (entryAddress table (vaToVpn va level)).toNat =
      table.toNat + 8 * (vpn va level : Nat) := by
  have small : (vaToVpn va level).toNat < 512 := by
    rw [vaToVpn_eq_vpn va bound]
    exact (vpn va level).isLt
  rw [entryAddress_toNat aligned small, vaToVpn_eq_vpn va bound]

/-- A load through a pointer to an entry. -/
theorem load_entry
    {table : UInt64} (aligned : Aligned table) (va : UInt64) {level : Nat}
    (bound : level ≤ 2) (mem : State) :
    (load (entryAddress table (vaToVpn va level))).Runs mem
      (entryOf mem.bytes table (vpn va level)) mem := by
  rw [runs_load, entryAddress_vpn aligned va bound]
  exact ⟨rfl, rfl⟩

/-- A store through a pointer to an entry. -/
theorem store_entry
    {table : UInt64} (aligned : Aligned table) (va value : UInt64)
    {level : Nat} (bound : level ≤ 2) (mem : State) :
    (store (entryAddress table (vaToVpn va level)) value).Runs mem ()
      (mem.setBytes (storeEntry mem.bytes table (vpn va level) value)) := by
  rw [runs_store, entryAddress_vpn aligned va bound]
  rfl

section Steps

variable (tables : Tables mem.bytes root free) {level : Nat}
  (bound : level < 2)
  (present : tableAt mem.bytes (root r) (pathTo va (level + 1)) ≠ 0)

include bound present

/-- A valid entry leads to the next table. -/
theorem tableAt_pathTo_of_isValid
    (valid : isValid (entryOf mem.bytes
      (tableAt mem.bytes (root r) (pathTo va (level + 1)))
      (vpn va (level + 1))) = true) :
    tableAt mem.bytes (root r) (pathTo va level) =
      pteToPa (entryOf mem.bytes
        (tableAt mem.bytes (root r) (pathTo va (level + 1)))
        (vpn va (level + 1))) := by
  rw [pathTo_succ va bound, tableAt_concat, if_neg present]
  unfold childOf
  rw [if_pos valid]

/-- Behind an invalid entry there is no table. -/
theorem tableAt_pathTo_of_not_isValid
    (invalid : isValid (entryOf mem.bytes
      (tableAt mem.bytes (root r) (pathTo va (level + 1)))
      (vpn va (level + 1))) = false) :
    tableAt mem.bytes (root r) (pathTo va level) = 0 := by
  rw [pathTo_succ va bound, tableAt_concat, if_neg present,
    childOf_eq_zero invalid]

include tables in
theorem tableAt_pathTo_ne_zero
    (valid : isValid (entryOf mem.bytes
      (tableAt mem.bytes (root r) (pathTo va (level + 1)))
      (vpn va (level + 1))) = true) :
    tableAt mem.bytes (root r) (pathTo va level) ≠ 0 := by
  have short : (pathTo va (level + 1)).length < 2 := by
    rw [pathTo_length va (Nat.succ_le_of_lt bound)]
    omega
  rw [tableAt_pathTo_of_isValid bound present valid]
  exact (tables.pointer r _ _ short present valid).2

end Steps

theorem tableAt_pathTo_zero
    (bytes : Bytes) (root va : UInt64) {level : Nat} (bound : level ≤ 2)
    (missing : tableAt bytes root (pathTo va level) = 0) :
    tableAt bytes root (pathTo va 0) = 0 := by
  induction level with
  | zero => exact missing
  | succ level inductionHypothesis =>
      apply inductionHypothesis (Nat.le_of_succ_le bound)
      rw [pathTo_succ va bound, tableAt_concat, if_pos missing]

/-! ## Looking up -/

/-- The loop of `vm_getpte` without allocation. -/
theorem walkTables_lookup
    (tables : Tables mem.bytes root free) {level : Nat} (bound : level ≤ 2)
    (present : tableAt mem.bytes (root r) (pathTo va level) ≠ 0)
    {value : UInt64} :
    (walkTables va false level
        (tableAt mem.bytes (root r) (pathTo va level))).Runs mem value mem' ↔
      entryPointer mem.bytes (root r) va = value ∧ mem = mem' := by
  induction level with
  | zero =>
      unfold walkTables entryPointer
      rw [Program.runs_pure, if_neg present]
  | succ level inductionHypothesis =>
      have aligned := tables.aligned_tableAt r (pathTo va (level + 1))
      rw [walkTables, (load_entry aligned va bound mem).bind_iff]
      cases valid : isValid (entryOf mem.bytes
          (tableAt mem.bytes (root r) (pathTo va (level + 1)))
          (vpn va (level + 1))) with
      | true =>
          have further := inductionHypothesis (Nat.le_of_succ_le bound)
            (tableAt_pathTo_ne_zero tables bound present valid)
          rw [tableAt_pathTo_of_isValid bound present valid] at further
          rw [← further, if_pos rfl]
      | false =>
          have missing := tableAt_pathTo_zero _ _ _ (Nat.le_of_succ_le bound)
            (tableAt_pathTo_of_not_isValid bound present valid)
          unfold entryPointer
          rw [if_pos missing, if_neg Bool.false_ne_true]
          exact Program.runs_pure

theorem vmGetpte_runs {pgtbl value : UInt64} {alloc : Bool} :
    (vmGetpte pgtbl va alloc).Runs mem value mem' ↔
      va < vaMax ∧
        (walkTables va alloc 2 (rootOf mem pgtbl)).Runs mem value mem' := by
  unfold vmGetpte rootOf
  simp only [Program.runs_bind, Program.runs_get, Program.runs_assert,
    decide_eq_true_eq]
  constructor
  · rintro ⟨_, _, ⟨rfl, rfl⟩, _, _, ⟨low, rfl⟩, run⟩
    exact ⟨low, run⟩
  · rintro ⟨low, run⟩
    exact ⟨mem, mem, ⟨rfl, rfl⟩, (), mem, ⟨low, rfl⟩, run⟩

/-- `vm_getpte` without allocation changes nothing. -/
theorem vmGetpte_lookup
    (tables : Tables mem.bytes root free) {pgtbl value : UInt64}
    (isRoot : rootOf mem pgtbl = root r) (present : root r ≠ 0) :
    (vmGetpte pgtbl va false).Runs mem value mem' ↔
      va < vaMax ∧ entryPointer mem.bytes (root r) va = value ∧ mem = mem' := by
  have walk : (walkTables va false 2 (root r)).Runs mem value mem' ↔
      entryPointer mem.bytes (root r) va = value ∧ mem = mem' :=
    walkTables_lookup tables (Nat.le_refl 2) present
  rw [vmGetpte_runs, isRoot, walk]

/-! ## Adding tables -/

/-- The tables of a set that are missing. -/
def missing (bytes : Bytes) (root : UInt64) (paths : Finset (List (Fin 512))) :
    Finset (List (Fin 512)) :=
  paths.filter fun path => path.length ≤ 2 ∧ tableAt bytes root path = 0

/-- The kernel has a free page for each table of a set that is missing. -/
def Enough (bytes : Bytes) (root : UInt64) (free : Bool → List UInt64)
    (paths : Finset (List (Fin 512))) : Prop :=
  (missing bytes root paths).card ≤ (free true).length

/-- Tables were added on the way to a virtual address. -/
structure Walked (root : ρ → UInt64) (r : ρ) (va : UInt64) (mem : State)
    (free : Bool → List UInt64) (mem' : State) (free' : Bool → List UInt64) :
    Prop extends Grown root mem free mem' free' where
  ptes : ∀ r' va', pteAt mem'.bytes (root r') va' =
    pteAt mem.bytes (root r') va'
  enough : ∀ paths, (∀ level < 2, pathTo va level ∈ paths) →
    (Enough mem'.bytes (root r) free' paths ↔
      Enough mem.bytes (root r) free paths)

theorem Walked.refl
    (lists : FreeLists mem free) (tables : Tables mem.bytes root free) :
    Walked root r va mem free mem free :=
  ⟨Grown.refl lists tables, fun _ _ => rfl, fun _ _ => Iff.rfl⟩

theorem Walked.trans
    (first : Walked root r va mem free mem' free')
    (second : Walked root r va mem' free' mem'' free'') :
    Walked root r va mem free mem'' free'' :=
  ⟨first.toGrown.trans second.toGrown,
    fun r' va' => (second.ptes r' va').trans (first.ptes r' va'),
    fun paths along =>
      (second.enough paths along).trans (first.enough paths along)⟩

/-- A table that is added is no longer missing. -/
theorem card_missing_attach
    {bytes bytes' : Bytes} {table fresh : UInt64}
    {path : List (Fin 512)} {paths : Finset (List (Fin 512))}
    (notNull : fresh ≠ 0) (bound : path.length ≤ 2) (member : path ∈ paths)
    (absent : tableAt bytes table path = 0)
    (appears : ∀ path', path'.length ≤ 2 → tableAt bytes' table path' =
      if path' = path then fresh else tableAt bytes table path') :
    (missing bytes table paths).card = (missing bytes' table paths).card + 1 := by
  have fewer : missing bytes' table paths =
      (missing bytes table paths).erase path := by
    ext other
    simp only [missing, Finset.mem_filter, Finset.mem_erase]
    constructor
    · rintro ⟨isPath, short, still⟩
      rw [appears other short] at still
      by_cases same : other = path
      · rw [if_pos same] at still
        exact absurd still notNull
      · rw [if_neg same] at still
        exact ⟨same, isPath, short, still⟩
    · rintro ⟨differs, isPath, short, before⟩
      refine ⟨isPath, short, ?_⟩
      rw [appears other short, if_neg differs, before]
  have isMissing : path ∈ missing bytes table paths := by
    simp only [missing, Finset.mem_filter]
    exact ⟨member, bound, absent⟩
  have positive := Finset.card_pos.mpr ⟨path, isMissing⟩
  rw [fewer, Finset.card_erase_of_mem isMissing]
  omega

/-- One iteration of the loop of `vm_getpte` at an entry that is not valid. -/
theorem walkTables_attach
    [DecidableEq ρ] (tables : Tables mem.bytes root free)
    (lists : FreeLists mem free) {fresh : UInt64} {rest : List UInt64}
    (isFree : free true = fresh :: rest) {level : Nat} (bound : level < 2)
    (present : tableAt mem.bytes (root r) (pathTo va (level + 1)) ≠ 0)
    (invalid : isValid (entryOf mem.bytes
      (tableAt mem.bytes (root r) (pathTo va (level + 1)))
      (vpn va (level + 1))) = false) :
    ∃ middle, Walked root r va mem free middle
        (Function.update free true rest) ∧
      tableAt middle.bytes (root r) (pathTo va level) = fresh ∧
      (walkTables va true (level + 1)
          (tableAt mem.bytes (root r) (pathTo va (level + 1)))).exec mem =
        (walkTables va true level fresh).exec middle ∧
      ∀ paths, pathTo va level ∈ paths →
        (missing mem.bytes (root r) paths).card =
          (missing middle.bytes (root r) paths).card + 1 := by
  have member : fresh ∈ free true := by
    rw [isFree]
    exact List.mem_cons_self
  have freshAligned := lists.aligned true fresh member
  have notNull := lists.ne_null member
  have aligned := tables.aligned_tableAt r (pathTo va (level + 1))
  have short : (pathTo va (level + 1)).length < 2 := by
    rw [pathTo_length va (Nat.succ_le_of_lt bound)]
    omega
  have appears := tableAt_attach tables member freshAligned notNull short
    present invalid
  have absent := tableAt_pathTo_of_not_isValid bound present invalid
  have length : (pathTo va level).length ≤ 2 := by
    rw [pathTo_length va (Nat.le_of_lt bound)]
    omega
  obtain ⟨region, allocated, lists'⟩ := lists.alloc isFree
  have fewer : ∀ paths, pathTo va level ∈ paths →
      (missing mem.bytes (root r) paths).card =
        (missing (((mem.setRegion true region).setBytes
          (attachBytes mem.bytes
            (tableAt mem.bytes (root r) (pathTo va (level + 1)))
            (vpn va (level + 1)) fresh)).bytes) (root r) paths).card + 1 := by
    intro paths onPath
    refine card_missing_attach notNull length onPath absent ?_
    intro path' bound'
    rw [State.setBytes_bytes, appears r path' bound', pathTo_succ va bound]
    simp only [true_and]
  refine ⟨_, ⟨Grown.attach tables lists isFree lists' short present invalid,
    ?_, ?_⟩, ?_, ?_, fewer⟩
  · exact pteAt_attach tables member freshAligned notNull short present invalid
  · intro paths along
    have isCount := fewer paths (along level bound)
    unfold Enough
    rw [isFree, List.length_cons, Function.update_self]
    omega
  · rw [State.setBytes_bytes, appears r _ length, pathTo_succ va bound]
    exact if_pos ⟨rfl, rfl⟩
  · have pte := load_entry aligned va bound mem
    have cleared : (clearPage fresh).Runs (mem.setRegion true region) ()
        ((mem.setRegion true region).setBytes
          (clearedBytes mem.bytes fresh)) := by
      simp only [clearPage, Program.runs_bind, Program.runs_assert,
        Program.runs_modify]
      exact ⟨(), _, ⟨decide_eq_true notNull, rfl⟩, rfl⟩
    have linked := store_entry aligned va (leafPte fresh 0) bound
      ((mem.setRegion true region).setBytes (clearedBytes mem.bytes fresh))
    rw [walkTables, pte.exec_bind, invalid]
    simp only [Bool.false_eq_true, if_false, Bool.not_true]
    rw [allocated.exec_bind, cleared.exec_bind, ← leafPte_zero,
      linked.exec_bind]
    rfl

/-- Without a free page the loop of `vm_getpte` writes through a null pointer at
an entry that is not valid. -/
theorem walkTables_no_page
    (tables : Tables mem.bytes root free) (lists : FreeLists mem free)
    (none : free true = []) {level : Nat} (bound : level < 2)
    (invalid : isValid (entryOf mem.bytes
      (tableAt mem.bytes (root r) (pathTo va (level + 1)))
      (vpn va (level + 1))) = false) :
    (walkTables va true (level + 1)
      (tableAt mem.bytes (root r) (pathTo va (level + 1)))).exec mem =
        .error "store page fault" := by
  have aligned := tables.aligned_tableAt r (pathTo va (level + 1))
  rw [walkTables, (load_entry aligned va bound mem).exec_bind, invalid]
  simp only [Bool.false_eq_true, if_false, Bool.not_true]
  rw [(lists.alloc_empty none).exec_bind]
  rfl

/-- The loop of `vm_getpte` with allocation. -/
theorem walkTables_alloc
    [DecidableEq ρ] (tables : Tables mem.bytes root free)
    (lists : FreeLists mem free) {level : Nat} (bound : level ≤ 2)
    (present : tableAt mem.bytes (root r) (pathTo va level) ≠ 0)
    {value : UInt64}
    (run : (walkTables va true level
      (tableAt mem.bytes (root r) (pathTo va level))).Runs mem value mem') :
    ∃ free', Walked root r va mem free mem' free' ∧
      tableAt mem'.bytes (root r) (pathTo va 0) ≠ 0 ∧
      entryPointer mem'.bytes (root r) va = value := by
  induction level generalizing mem free with
  | zero =>
      unfold walkTables at run
      obtain ⟨rfl, rfl⟩ := Program.runs_pure.mp run
      refine ⟨free, Walked.refl lists tables, present, ?_⟩
      unfold entryPointer
      rw [if_neg present]
  | succ level inductionHypothesis =>
      have aligned := tables.aligned_tableAt r (pathTo va (level + 1))
      cases valid : isValid (entryOf mem.bytes
          (tableAt mem.bytes (root r) (pathTo va (level + 1)))
          (vpn va (level + 1))) with
      | true =>
          rw [walkTables, (load_entry aligned va bound mem).bind_iff, valid,
            if_pos rfl, ← tableAt_pathTo_of_isValid bound present valid] at run
          exact inductionHypothesis tables lists (Nat.le_of_succ_le bound)
            (tableAt_pathTo_ne_zero tables bound present valid) run
      | false =>
          cases isFree : free true with
          | nil =>
              unfold Runs at run
              rw [walkTables_no_page tables lists isFree bound valid] at run
              cases run
          | cons fresh rest =>
              obtain ⟨middle, walked, atFresh, same, _⟩ := walkTables_attach
                tables lists isFree bound present valid
              have member : fresh ∈ free true := by
                rw [isFree]
                exact List.mem_cons_self
              unfold Runs at run
              rw [same, ← atFresh] at run
              have below : tableAt middle.bytes (root r) (pathTo va level) ≠
                  0 := by
                rw [atFresh]
                exact lists.ne_null member
              obtain ⟨free', further, result⟩ := inductionHypothesis
                walked.tables walked.lists (Nat.le_of_succ_le bound) below run
              exact ⟨free', walked.trans further, result⟩

/-- The loop of `vm_getpte` ends if the kernel has a page for each table that is
missing. -/
theorem walkTables_total
    [DecidableEq ρ] (tables : Tables mem.bytes root free)
    (lists : FreeLists mem free) {level : Nat} (bound : level ≤ 2)
    (present : tableAt mem.bytes (root r) (pathTo va level) ≠ 0)
    {paths : Finset (List (Fin 512))}
    (along : ∀ level < 2, pathTo va level ∈ paths)
    (enough : Enough mem.bytes (root r) free paths) :
    ∃ value mem', (walkTables va true level
      (tableAt mem.bytes (root r) (pathTo va level))).Runs mem value mem' := by
  induction level generalizing mem free with
  | zero => exact ⟨_, mem, Program.runs_pure.mpr ⟨rfl, rfl⟩⟩
  | succ level inductionHypothesis =>
      have aligned := tables.aligned_tableAt r (pathTo va (level + 1))
      cases valid : isValid (entryOf mem.bytes
          (tableAt mem.bytes (root r) (pathTo va (level + 1)))
          (vpn va (level + 1))) with
      | true =>
          simp only [walkTables, (load_entry aligned va bound mem).bind_iff,
            valid, if_true, ← tableAt_pathTo_of_isValid bound present valid]
          exact inductionHypothesis tables lists (Nat.le_of_succ_le bound)
            (tableAt_pathTo_ne_zero tables bound present valid) enough
      | false =>
          cases isFree : free true with
          | nil =>
              have absent := tableAt_pathTo_of_not_isValid bound present valid
              have length : (pathTo va level).length ≤ 2 := by
                rw [pathTo_length va (Nat.le_of_succ_le bound)]
                omega
              have isMissing : pathTo va level ∈
                  missing mem.bytes (root r) paths := by
                simp only [missing, Finset.mem_filter]
                exact ⟨along level bound, length, absent⟩
              have positive := Finset.card_pos.mpr ⟨_, isMissing⟩
              unfold Enough at enough
              rw [isFree, List.length_nil] at enough
              omega
          | cons fresh rest =>
              obtain ⟨middle, walked, atFresh, same, _⟩ := walkTables_attach
                tables lists isFree bound present valid
              have member : fresh ∈ free true := by
                rw [isFree]
                exact List.mem_cons_self
              have below : tableAt middle.bytes (root r) (pathTo va level) ≠
                  0 := by
                rw [atFresh]
                exact lists.ne_null member
              simp only [Runs, same, ← atFresh]
              exact inductionHypothesis walked.tables walked.lists
                (Nat.le_of_succ_le bound) below
                ((walked.enough paths along).mpr enough)

/-! ## Ranges of pages -/

/-- The entries of a range of pages were stored. -/
structure Mapped (root : ρ → UInt64) (r : ρ) (first pages : Nat)
    (entry : Nat → UInt64) (mem : State) (free : Bool → List UInt64)
    (mem' : State) (free' : Bool → List UInt64) : Prop
    extends Grown root mem free mem' free' where
  inside : ∀ index < pages, ∀ va, pageOf va = first + index →
    pteAt mem'.bytes (root r) va = entry index
  outside : ∀ r' va,
    ¬(r' = r ∧ first ≤ pageOf va ∧ pageOf va < first + pages) →
    pteAt mem'.bytes (root r') va = pteAt mem.bytes (root r') va

theorem Mapped.refl
    (lists : FreeLists mem free) (tables : Tables mem.bytes root free)
    (first : Nat) (entry : Nat → UInt64) :
    Mapped root r first 0 entry mem free mem free :=
  ⟨Grown.refl lists tables, fun _ none => absurd none (Nat.not_lt_zero _),
    fun _ _ _ => rfl⟩

/-- Ranges that follow each other. -/
theorem Mapped.trans
    {first pages : Nat} {entry : Nat → UInt64}
    (one : Mapped root r first 1 (fun _ => entry 0) mem free mem' free')
    (others : Mapped root r (first + 1) pages (fun index => entry (index + 1))
      mem' free' mem'' free'') :
    Mapped root r first (pages + 1) entry mem free mem'' free'' := by
  refine ⟨one.toGrown.trans others.toGrown, ?_, ?_⟩
  · intro index bound va isPage
    cases index with
    | zero =>
        rw [others.outside r va (by omega), one.inside 0 Nat.zero_lt_one va
          isPage]
    | succ index =>
        exact others.inside index (Nat.lt_of_succ_lt_succ bound) va (by omega)
  · intro r' va outside
    rw [others.outside r' va, one.outside r' va]
    · rintro ⟨same, low, high⟩
      exact outside ⟨same, low, by omega⟩
    · rintro ⟨same, low, high⟩
      exact outside ⟨same, by omega, by omega⟩

/-- The entry of one page is stored. -/
theorem Mapped.storeLeaf
    [DecidableEq ρ] (value : UInt64)
    (tables : Tables mem.bytes root free) (lists : FreeLists mem free)
    (present : tableAt mem.bytes (root r) (pathTo va 0) ≠ 0) :
    Mapped root r (pageOf va) 1 (fun _ => value) mem free
      (mem.setBytes (storeEntry mem.bytes
        (tableAt mem.bytes (root r) (pathTo va 0)) (vpn va 0) value))
      free := by
  refine ⟨Grown.storeLeaf value tables lists present, ?_, ?_⟩
  · intro index bound va' isPage
    have same : r = r ∧ pageOf va' = pageOf va := ⟨rfl, by omega⟩
    rw [State.setBytes_bytes, pteAt_storeLeaf tables present, if_pos same]
  · intro r' va' outside
    rw [State.setBytes_bytes, pteAt_storeLeaf tables present, if_neg]
    rintro ⟨same, isPage⟩
    exact outside ⟨same, by omega, by omega⟩

theorem Walked.mapped
    {first pages : Nat} {entry : Nat → UInt64}
    (walked : Walked root r va mem free mem' free')
    (mapped : Mapped root r first pages entry mem' free' mem'' free'') :
    Mapped root r first pages entry mem free mem'' free'' :=
  ⟨walked.toGrown.trans mapped.toGrown, mapped.inside,
    fun r' va' outside => (mapped.outside r' va' outside).trans
      (walked.ptes r' va')⟩

theorem enough_congr
    (placed : ∀ path, path.length ≤ 2 →
      tableAt mem'.bytes (root r) path = tableAt mem.bytes (root r) path)
    {paths : Finset (List (Fin 512))} :
    Enough mem'.bytes (root r) free paths ↔
      Enough mem.bytes (root r) free paths := by
  have same : missing mem'.bytes (root r) paths =
      missing mem.bytes (root r) paths := by
    apply Finset.filter_congr
    intro path _
    constructor
    · rintro ⟨bound, absent⟩
      exact ⟨bound, (placed path bound).symm.trans absent⟩
    · rintro ⟨bound, absent⟩
      exact ⟨bound, (placed path bound).trans absent⟩
  unfold Enough
  rw [same]

/-- One iteration of the loop of `vm_mappages`. -/
def mapPage (pgtbl va value : UInt64) : MemM Unit := do
  let pte ← vmGetpte pgtbl va true
  Program.assert (pte ≠ 0) "vm_mappages: getpte fail"
  store pte value

theorem entryPointer_of_present
    (tables : Tables mem.bytes root free)
    (present : tableAt mem.bytes (root r) (pathTo va 0) ≠ 0) :
    entryPointer mem.bytes (root r) va =
        entryAddress (tableAt mem.bytes (root r) (pathTo va 0))
          (vaToVpn va 0) ∧
      entryPointer mem.bytes (root r) va ≠ 0 := by
  have isPointer : entryPointer mem.bytes (root r) va =
      entryAddress (tableAt mem.bytes (root r) (pathTo va 0))
        (vaToVpn va 0) := if_neg present
  refine ⟨isPointer, ?_⟩
  rw [isPointer]
  intro null
  have address := entryAddress_vpn (tables.aligned_tableAt r (pathTo va 0)) va
    (Nat.zero_le 2)
  rw [null, UInt64.toNat_zero] at address
  exact present (UInt64.toNat_inj.mp (Nat.eq_zero_of_add_eq_zero_right
    address.symm))

/-- The pointer is null exactly when a table is missing. -/
theorem entryPointer_eq_zero
    (tables : Tables mem.bytes root free) :
    entryPointer mem.bytes (root r) va = 0 ↔
      tableAt mem.bytes (root r) (pathTo va 0) = 0 := by
  constructor
  · intro null
    by_contra present
    exact (entryPointer_of_present tables present).2 null
  · intro absent
    exact if_pos absent

section Pointer

variable (tables : Tables mem.bytes root free)
  (present : tableAt mem.bytes (root r) (pathTo va 0) ≠ 0)

include tables present

/-- A load of an entry of the last level. -/
theorem load_entryPointer :
    (load (entryPointer mem.bytes (root r) va)).Runs mem
      (pteAt mem.bytes (root r) va) mem := by
  have aligned := tables.aligned_tableAt r (pathTo va 0)
  have loaded := load_entry aligned va (Nat.zero_le 2) mem
  unfold pteAt
  rw [(entryPointer_of_present tables present).1, if_neg present]
  exact loaded

/-- A store to an entry of the last level. -/
theorem store_entryPointer (value : UInt64) :
    (store (entryPointer mem.bytes (root r) va) value).Runs mem ()
      (mem.setBytes (storeEntry mem.bytes
        (tableAt mem.bytes (root r) (pathTo va 0)) (vpn va 0) value)) := by
  have aligned := tables.aligned_tableAt r (pathTo va 0)
  rw [(entryPointer_of_present tables present).1]
  exact store_entry aligned va value (Nat.zero_le 2) mem

end Pointer

section MapPage

variable [DecidableEq ρ] (tables : Tables mem.bytes root free)
  (lists : FreeLists mem free) {pgtbl : UInt64}
  (isRoot : rootOf mem pgtbl = root r) (present : root r ≠ 0)

include tables lists isRoot present

/-- `vm_getpte` with allocation. -/
theorem vmGetpte_alloc
    {pointer : UInt64}
    (run : (vmGetpte pgtbl va true).Runs mem pointer mem') :
    va < vaMax ∧ ∃ free', Walked root r va mem free mem' free' ∧
      tableAt mem'.bytes (root r) (pathTo va 0) ≠ 0 ∧
      entryPointer mem'.bytes (root r) va = pointer := by
  rw [vmGetpte_runs, isRoot] at run
  exact ⟨run.1, walkTables_alloc tables lists (Nat.le_refl 2) present run.2⟩

/-- A page is mapped. -/
theorem mapPage_mapped
    {value : UInt64}
    (run : (mapPage pgtbl va value).Runs mem () mem') :
    va < vaMax ∧ ∃ free',
      Mapped root r (pageOf va) 1 (fun _ => value) mem free mem' free' ∧
      ∀ paths, (∀ level < 2, pathTo va level ∈ paths) →
        (Enough mem'.bytes (root r) free' paths ↔
          Enough mem.bytes (root r) free paths) := by
  unfold mapPage at run
  rw [Program.runs_bind] at run
  obtain ⟨pointer, middle, found, run⟩ := run
  obtain ⟨low, free', walked, below, rfl⟩ := vmGetpte_alloc tables lists isRoot
    present found
  simp only [Program.runs_bind, Program.runs_assert] at run
  obtain ⟨_, _, ⟨_, rfl⟩, run⟩ := run
  obtain ⟨_, rfl⟩ := (store_entryPointer walked.tables below
    value).deterministic run
  refine ⟨low, free', walked.mapped
    (Mapped.storeLeaf value walked.tables walked.lists below), ?_⟩
  intro paths along
  have stored : ∀ path, path.length ≤ 2 → tableAt (middle.setBytes
      (storeEntry middle.bytes (tableAt middle.bytes (root r) (pathTo va 0))
        (vpn va 0) value)).bytes (root r) path =
      tableAt middle.bytes (root r) path :=
    fun path bound => tableAt_storeLeaf walked.tables r path bound
  exact (enough_congr stored).trans (walked.enough paths along)

/-- A page can be mapped if the kernel has a page for each table that is
missing. -/
theorem mapPage_total
    (value : UInt64) (low : va < vaMax) {paths : Finset (List (Fin 512))}
    (along : ∀ level < 2, pathTo va level ∈ paths)
    (enough : Enough mem.bytes (root r) free paths) :
    ∃ mem', (mapPage pgtbl va value).Runs mem () mem' := by
  obtain ⟨pointer, middle, run⟩ := walkTables_total tables lists
    (Nat.le_refl 2) present along enough
  have found : (vmGetpte pgtbl va true).Runs mem pointer middle := by
    rw [vmGetpte_runs, isRoot]
    exact ⟨low, run⟩
  obtain ⟨_, free', walked, below, isPointer⟩ := vmGetpte_alloc tables lists
    isRoot present found
  have notNull := (entryPointer_of_present walked.tables below).2
  rw [isPointer] at notNull
  unfold mapPage
  simp only [found.bind_iff, Program.runs_bind, Program.runs_assert,
    runs_store]
  exact ⟨_, (), middle, ⟨decide_eq_true notNull, rfl⟩, rfl⟩

end MapPage

/-- The virtual addresses of a range of whole pages. -/
structure PageRange (start stop : UInt64) (pages : Nat) : Prop where
  aligned : Aligned start
  ends : start.toNat + 4096 * pages = stop.toNat
  low : stop.toNat ≤ 2 ^ 38

namespace PageRange

variable {start stop : UInt64} {pages : Nat}

theorem pageOf_start (range : PageRange start stop pages) :
    pageOf start = start.toNat / 4096 := by
  have stops := range.ends
  have low := range.low
  unfold pageOf
  omega

theorem lt (range : PageRange start stop (pages + 1)) : start < stop := by
  have stops := range.ends
  rw [UInt64.lt_iff_toNat_lt]
  omega

theorem not_lt (range : PageRange start stop 0) : ¬start < stop := by
  have stops := range.ends
  rw [UInt64.lt_iff_toNat_lt]
  omega

theorem start_lt (range : PageRange start stop (pages + 1)) :
    start < vaMax := by
  have stops := range.ends
  have low := range.low
  have max : vaMax.toNat = 2 ^ 38 := rfl
  rw [UInt64.lt_iff_toNat_lt]
  omega

theorem next_toNat (range : PageRange start stop (pages + 1)) :
    (start + 4096).toNat = start.toNat + 4096 := by
  have stops := range.ends
  have low := range.low
  have size : (4096 : UInt64).toNat = 4096 := rfl
  rw [UInt64.toNat_add, size]
  omega

theorem next (range : PageRange start stop (pages + 1)) :
    PageRange (start + 4096) stop pages := by
  have next := range.next_toNat
  have stops := range.ends
  have aligned := range.aligned
  unfold Aligned at aligned
  refine ⟨?_, ?_, range.low⟩
  · unfold Aligned
    omega
  · omega

theorem next_page (range : PageRange start stop (pages + 1)) :
    (start + 4096).toNat / 4096 = start.toNat / 4096 + 1 := by
  rw [range.next_toNat]
  omega

/-- The address of a page of the range. -/
theorem page_toNat
    (range : PageRange start stop pages) {index : Nat} (bound : index < pages) :
    (start + 4096 * UInt64.ofNat index).toNat = start.toNat + 4096 * index := by
  have stops := range.ends
  have low := range.low
  have size : (4096 : UInt64).toNat = 4096 := rfl
  rw [UInt64.toNat_add, UInt64.toNat_mul, size, UInt64.toNat_ofNat']
  omega

end PageRange

theorem offset_zero (base : UInt64) : base + 4096 * UInt64.ofNat 0 = base :=
  UInt64.add_zero base

theorem offset_succ (base : UInt64) (index : Nat) :
    base + 4096 * UInt64.ofNat (index + 1) =
      base + 4096 + 4096 * UInt64.ofNat index := by
  rw [UInt64.ofNat_add, UInt64.mul_add, UInt64.add_comm (4096 * _),
    ← UInt64.add_assoc]
  rfl

theorem rootOf_congr
    (same : mem'.kernelPgtbl = mem.kernelPgtbl) (pgtbl : UInt64) :
    rootOf mem' pgtbl = rootOf mem pgtbl := by
  unfold rootOf
  rw [same]

theorem mapLoop_succ
    {pgtbl start stop pa perm : UInt64} (more : start < stop) {fuel : Nat} :
    (mapLoop pgtbl stop perm (fuel + 1) start pa).Runs mem () mem' ↔
      ∃ middle, (mapPage pgtbl start (leafPte pa perm)).Runs mem () middle ∧
        (mapLoop pgtbl stop perm fuel (start + 4096) (pa + 4096)).Runs middle
          () mem' := by
  rw [mapLoop, if_pos more]
  unfold mapPage
  simp only [Program.runs_bind, leafPte]
  constructor
  · rintro ⟨pointer, first, found, _, second, isSome, _, third, stored, rest⟩
    exact ⟨third, ⟨pointer, first, found, (), second, isSome, stored⟩, rest⟩
  · rintro ⟨third, ⟨pointer, first, found, _, second, isSome, stored⟩, rest⟩
    exact ⟨pointer, first, found, (), second, isSome, (), third, stored, rest⟩

theorem mapLoop_none
    {pgtbl start stop pa perm : UInt64} (done : ¬start < stop) {fuel : Nat} :
    (mapLoop pgtbl stop perm fuel start pa).Runs mem () mem' ↔ mem = mem' := by
  cases fuel with
  | zero => simp [mapLoop]
  | succ fuel => simp [mapLoop, done]

section MapLoop

variable [DecidableEq ρ] {pgtbl start stop pa perm : UInt64} {pages fuel : Nat}

/-- The loop of `vm_mappages`. -/
theorem mapLoop_mapped
    (tables : Tables mem.bytes root free) (lists : FreeLists mem free)
    (isRoot : rootOf mem pgtbl = root r) (present : root r ≠ 0)
    (range : PageRange start stop pages) (fueled : pages ≤ fuel)
    (run : (mapLoop pgtbl stop perm fuel start pa).Runs mem () mem') :
    ∃ free', Mapped root r (start.toNat / 4096) pages
      (fun index => leafPte (pa + 4096 * UInt64.ofNat index) perm) mem free
      mem' free' := by
  induction pages generalizing start pa fuel mem free with
  | zero =>
      obtain rfl := (mapLoop_none range.not_lt).mp run
      exact ⟨free, Mapped.refl lists tables _ _⟩
  | succ pages inductionHypothesis =>
      obtain ⟨fuel, rfl⟩ := Nat.exists_eq_succ_of_ne_zero
        (Nat.ne_of_gt (Nat.lt_of_lt_of_le (Nat.succ_pos pages) fueled))
      obtain ⟨middle, first, rest⟩ := (mapLoop_succ range.lt).mp run
      obtain ⟨_, free₁, mapped, _⟩ := mapPage_mapped tables lists isRoot present
        first
      rw [range.pageOf_start] at mapped
      obtain ⟨free', others⟩ := inductionHypothesis mapped.tables mapped.lists
        ((rootOf_congr mapped.kernelPgtbl pgtbl).trans isRoot) range.next
        (Nat.le_of_succ_le_succ fueled) rest
      rw [range.next_page] at others
      simp only [← offset_succ] at others
      refine ⟨free', Mapped.trans ?_ others⟩
      rw [offset_zero]
      exact mapped

/-- `vm_mappages` ends if the kernel has a page for each table that is
missing. -/
theorem mapLoop_total
    (tables : Tables mem.bytes root free) (lists : FreeLists mem free)
    (isRoot : rootOf mem pgtbl = root r) (present : root r ≠ 0)
    (range : PageRange start stop pages)
    {paths : Finset (List (Fin 512))}
    (along : ∀ index < pages, ∀ level < 2,
      pathTo (start + 4096 * UInt64.ofNat index) level ∈ paths)
    (enough : Enough mem.bytes (root r) free paths) :
    ∃ mem', (mapLoop pgtbl stop perm fuel start pa).Runs mem () mem' := by
  induction fuel generalizing start pa pages mem free with
  | zero => exact ⟨mem, Program.runs_pure.mpr ⟨rfl, rfl⟩⟩
  | succ fuel inductionHypothesis =>
      cases pages with
      | zero => exact ⟨mem, (mapLoop_none range.not_lt).mpr rfl⟩
      | succ pages =>
          have along₀ : ∀ level < 2, pathTo start level ∈ paths := by
            have atStart := along 0 (Nat.succ_pos pages)
            rw [offset_zero] at atStart
            exact atStart
          obtain ⟨middle, first⟩ := mapPage_total tables lists isRoot present
            (leafPte pa perm) range.start_lt along₀ enough
          obtain ⟨_, free₁, mapped, kept⟩ := mapPage_mapped tables lists isRoot
            present first
          obtain ⟨mem', rest⟩ : ∃ mem', (mapLoop pgtbl stop perm fuel
              (start + 4096) (pa + 4096)).Runs middle () mem' :=
            inductionHypothesis mapped.tables mapped.lists
              ((rootOf_congr mapped.kernelPgtbl pgtbl).trans isRoot) range.next
              (fun index bound => by
                rw [← offset_succ]
                exact along (index + 1) (Nat.succ_lt_succ bound))
              ((kept paths along₀).mpr enough)
          exact ⟨mem', (mapLoop_succ range.lt).mpr ⟨middle, first, rest⟩⟩

end MapLoop

/-! ## Pages to spare -/

/-- The kernel has a page for each table that is missing, and some more. -/
def Spare (mem : State) (root : UInt64) (paths : Finset (List (Fin 512)))
    (count : Nat) : Prop :=
  (missing mem.bytes root paths).card + count ≤
    (mem.region true).allocable.toNat

theorem Spare.enough
    {table : UInt64} {paths : Finset (List (Fin 512))} {count : Nat}
    (spare : Spare mem table paths count) (lists : FreeLists mem free) :
    Enough mem.bytes table free paths := by
  unfold Spare at spare
  unfold Enough
  rw [lists.counted]
  omega

section Spare

variable [DecidableEq ρ] {paths : Finset (List (Fin 512))}
  {pgtbl start stop pa perm : UInt64} {pages fuel : Nat}

/-- The loop of `vm_getpte` takes a page for each table that it adds. -/
theorem walkTables_spare
    (tables : Tables mem.bytes root free) (lists : FreeLists mem free)
    {level : Nat} (bound : level ≤ 2)
    (present : tableAt mem.bytes (root r) (pathTo va level) ≠ 0)
    (along : ∀ level < 2, pathTo va level ∈ paths) {value : UInt64}
    (run : (walkTables va true level
      (tableAt mem.bytes (root r) (pathTo va level))).Runs mem value mem') :
    (missing mem'.bytes (root r) paths).card +
        (mem.region true).allocable.toNat =
      (missing mem.bytes (root r) paths).card +
        (mem'.region true).allocable.toNat := by
  induction level generalizing mem free with
  | zero =>
      unfold walkTables at run
      obtain ⟨rfl, rfl⟩ := Program.runs_pure.mp run
      rfl
  | succ level inductionHypothesis =>
      have aligned := tables.aligned_tableAt r (pathTo va (level + 1))
      cases valid : isValid (entryOf mem.bytes
          (tableAt mem.bytes (root r) (pathTo va (level + 1)))
          (vpn va (level + 1))) with
      | true =>
          rw [walkTables, (load_entry aligned va bound mem).bind_iff, valid,
            if_pos rfl, ← tableAt_pathTo_of_isValid bound present valid] at run
          exact inductionHypothesis tables lists (Nat.le_of_succ_le bound)
            (tableAt_pathTo_ne_zero tables bound present valid) run
      | false =>
          cases isFree : free true with
          | nil =>
              unfold Runs at run
              rw [walkTables_no_page tables lists isFree bound valid] at run
              cases run
          | cons fresh rest =>
              obtain ⟨middle, walked, atFresh, same, fewer⟩ :=
                walkTables_attach tables lists isFree bound present valid
              have member : fresh ∈ free true := by
                rw [isFree]
                exact List.mem_cons_self
              unfold Runs at run
              rw [same, ← atFresh] at run
              have below : tableAt middle.bytes (root r) (pathTo va level) ≠
                  0 := by
                rw [atFresh]
                exact lists.ne_null member
              have others := inductionHypothesis walked.tables walked.lists
                (Nat.le_of_succ_le bound) below run
              have isCount := fewer paths (along level bound)
              have before := lists.counted true
              have after := walked.lists.counted true
              rw [isFree, List.length_cons] at before
              rw [Function.update_self] at after
              omega

variable (tables : Tables mem.bytes root free) (lists : FreeLists mem free)
  (isRoot : rootOf mem pgtbl = root r) (present : root r ≠ 0)

include tables lists isRoot present

theorem mapPage_spare
    {value : UInt64} {count : Nat}
    (along : ∀ level < 2, pathTo va level ∈ paths)
    (spare : Spare mem (root r) paths count)
    (run : (mapPage pgtbl va value).Runs mem () mem') :
    Spare mem' (root r) paths count := by
  unfold mapPage at run
  rw [Program.runs_bind] at run
  obtain ⟨pointer, middle, found, run⟩ := run
  obtain ⟨low, free', walked, below, rfl⟩ := vmGetpte_alloc tables lists isRoot
    present found
  simp only [Program.runs_bind, Program.runs_assert] at run
  obtain ⟨_, _, ⟨_, rfl⟩, run⟩ := run
  obtain ⟨_, rfl⟩ := (store_entryPointer walked.tables below
    value).deterministic run
  have walk := (vmGetpte_runs.mp found).2
  rw [isRoot] at walk
  have taken := walkTables_spare tables lists (Nat.le_refl 2) present along walk
  have kept : missing (middle.setBytes (storeEntry middle.bytes
      (tableAt middle.bytes (root r) (pathTo va 0)) (vpn va 0)
        value)).bytes (root r) paths = missing middle.bytes (root r) paths := by
    unfold missing
    refine Finset.filter_congr fun path _ => and_congr_right fun bound => ?_
    rw [State.setBytes_bytes, tableAt_storeLeaf walked.tables r path bound]
  unfold Spare at spare ⊢
  rw [kept, setBytes_region]
  omega

/-- The loop of `vm_mappages` ends if the kernel has a page for each table that
is missing, and leaves the pages to spare. -/
theorem mapLoop_spare
    {count : Nat} (range : PageRange start stop pages) (fueled : pages ≤ fuel)
    (along : ∀ index < pages, ∀ level < 2,
      pathTo (start + 4096 * UInt64.ofNat index) level ∈ paths)
    (spare : Spare mem (root r) paths count) :
    ∃ mem', (mapLoop pgtbl stop perm fuel start pa).Runs mem () mem' ∧
      Spare mem' (root r) paths count := by
  induction fuel generalizing start pa pages mem free with
  | zero =>
      obtain rfl := Nat.le_zero.mp fueled
      exact ⟨mem, Program.runs_pure.mpr ⟨rfl, rfl⟩, spare⟩
  | succ fuel inductionHypothesis =>
      cases pages with
      | zero => exact ⟨mem, (mapLoop_none range.not_lt).mpr rfl, spare⟩
      | succ pages =>
          have along₀ : ∀ level < 2, pathTo start level ∈ paths := by
            have atStart := along 0 (Nat.succ_pos pages)
            rw [offset_zero] at atStart
            exact atStart
          obtain ⟨middle, first⟩ := mapPage_total tables lists isRoot present
            (leafPte pa perm) range.start_lt along₀ (spare.enough lists)
          obtain ⟨_, free₁, mapped, _⟩ := mapPage_mapped tables lists isRoot
            present first
          obtain ⟨mem', rest, spare'⟩ := inductionHypothesis mapped.tables
            mapped.lists
            ((rootOf_congr mapped.kernelPgtbl pgtbl).trans isRoot) range.next
            (Nat.le_of_succ_le_succ fueled)
            (fun index bound => by
              rw [← offset_succ]
              exact along (index + 1) (Nat.succ_lt_succ bound))
            (mapPage_spare tables lists isRoot present along₀ spare first)
          exact ⟨mem', (mapLoop_succ range.lt).mpr ⟨middle, first, rest⟩,
            spare'⟩

end Spare

theorem tableAt_of_isValid
    (valid : isValid (pteAt mem.bytes (root r) va) = true) :
    tableAt mem.bytes (root r) (pathTo va 0) ≠ 0 := by
  intro absent
  unfold pteAt at valid
  rw [if_pos absent, not_isValid_zero] at valid
  cases valid

/-- One iteration of the loop of `vm_unmappages` at a page that is mapped. -/
theorem unmapLoop_succ
    (tables : Tables mem.bytes root free) {pgtbl start stop : UInt64}
    (isRoot : rootOf mem pgtbl = root r) (present : root r ≠ 0)
    (more : start < stop) (low : start < vaMax)
    (valid : isValid (pteAt mem.bytes (root r) start) = true) {fuel : Nat} :
    (unmapLoop pgtbl stop false (fuel + 1) start).Runs mem () mem' ↔
      (unmapLoop pgtbl stop false fuel (start + 4096)).Runs
        (mem.setBytes (storeEntry mem.bytes
          (tableAt mem.bytes (root r) (pathTo start 0)) (vpn start 0) 0))
        () mem' := by
  have below := tableAt_of_isValid valid
  have found := (vmGetpte_lookup tables isRoot present).mpr
    ⟨low, rfl, Eq.refl mem⟩
  have loaded := load_entryPointer tables below
  have stored := store_entryPointer tables below 0
  have notNull := (entryPointer_of_present tables below).2
  have passes : ∀ {condition : Bool} {message : String}, condition = true →
      (Program.assert condition message : MemM Unit).Runs mem () mem :=
    fun holds => Program.runs_assert.mpr ⟨holds, rfl⟩
  rw [unmapLoop, if_pos more, found.bind_iff,
    (passes (decide_eq_true notNull)).bind_iff, loaded.bind_iff,
    (passes valid).bind_iff, if_neg Bool.false_ne_true, stored.bind_iff]

theorem unmapLoop_none
    {pgtbl start stop : UInt64} (done : ¬start < stop) {fuel : Nat} :
    (unmapLoop pgtbl stop false fuel start).Runs mem () mem' ↔ mem = mem' := by
  cases fuel with
  | zero => simp [unmapLoop]
  | succ fuel => simp [unmapLoop, done]

/-- The loop of `vm_unmappages` over pages that are mapped. -/
theorem unmapLoop_mapped
    [DecidableEq ρ] (tables : Tables mem.bytes root free)
    (lists : FreeLists mem free) {pgtbl start stop : UInt64}
    {pages fuel : Nat} (isRoot : rootOf mem pgtbl = root r)
    (present : root r ≠ 0) (range : PageRange start stop pages)
    (fueled : pages ≤ fuel)
    (valid : ∀ index < pages, ∀ va, pageOf va = start.toNat / 4096 + index →
      isValid (pteAt mem.bytes (root r) va) = true) :
    ∃ mem', (unmapLoop pgtbl stop false fuel start).Runs mem () mem' ∧
      Mapped root r (start.toNat / 4096) pages (fun _ => 0) mem free mem'
        free := by
  induction pages generalizing start fuel mem with
  | zero =>
      exact ⟨mem, (unmapLoop_none range.not_lt).mpr rfl,
        Mapped.refl lists tables _ _⟩
  | succ pages inductionHypothesis =>
      obtain ⟨fuel, rfl⟩ := Nat.exists_eq_succ_of_ne_zero
        (Nat.ne_of_gt (Nat.lt_of_lt_of_le (Nat.succ_pos pages) fueled))
      have validStart := valid 0 (Nat.succ_pos pages) start range.pageOf_start
      have mapped := Mapped.storeLeaf 0 tables lists
        (tableAt_of_isValid validStart)
      rw [range.pageOf_start] at mapped
      have validOthers : ∀ index < pages, ∀ va,
          pageOf va = (start + 4096).toNat / 4096 + index →
          isValid (pteAt (mem.setBytes (storeEntry mem.bytes
            (tableAt mem.bytes (root r) (pathTo start 0)) (vpn start 0)
            0)).bytes (root r) va) = true := by
        intro index bound va isPage
        rw [range.next_page] at isPage
        rw [mapped.outside r va (by omega)]
        exact valid (index + 1) (Nat.succ_lt_succ bound) va (by omega)
      obtain ⟨mem', rest, others⟩ := inductionHypothesis mapped.tables
        mapped.lists isRoot range.next (Nat.le_of_succ_le_succ fueled)
        validOthers
      rw [range.next_page] at others
      exact ⟨mem', (unmapLoop_succ tables isRoot present range.lt range.start_lt
        validStart).mpr rest, Mapped.trans mapped others⟩

end Mem
end WhuOs
