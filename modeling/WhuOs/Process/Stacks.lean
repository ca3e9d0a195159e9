import Mathlib.Algebra.Order.BigOperators.Group.Finset
import Mathlib.Order.Interval.Finset.Nat
import WhuOs.Mem.Permissions
import WhuOs.Process.Forks
import WhuOs.Process.Tree

/-!
# Kernel stacks

`kvm_init` maps a kernel stack for each CPU.  The processes use the kernel stacks
with the numbers of their slots.
-/

namespace WhuOs
namespace Process

open Library
open Library.Bytes
open Mem
open Program (Runs)

/-! ## The kernel page table -/

def uartBase : UInt64 := 0x10000000
def plicBase : UInt64 := 0x0c000000
def clintBase : UInt64 := 0x2000000
def virtioBase : UInt64 := 0x10001000
def memStart : UInt64 := 0x80000000
def memEnd : UInt64 := 0x88000000

/-- `KERN_PERM`. -/
def kernPerm : UInt64 := pteR ||| pteW ||| pteX

/-- Set `kernel_pgtbl`. -/
@[simps -fullyApplied] def setKernelPgtbl (mem : Mem.State) (pgtbl : UInt64) :
    Mem.State :=
  { mem with kernelPgtbl := pgtbl }

/-- The body of the loop of `kvm_init` that maps the kernel stacks. -/
def mapStack (pgtbl : UInt64) (index : Nat) : MemM Unit := do
  let pa ← pmemAlloc true
  Program.assert (pa ≠ 0) "kvm_init: failed to allocate kstack"
  vmMappages pgtbl (kstackOf index) pa 4096 (pteR ||| pteW)

/-- `kvm_init`. -/
def kvmInit (trampoline : UInt64) : MemM Unit := do
  let pgtbl ← pmemAlloc true
  Program.modify fun mem => setKernelPgtbl mem pgtbl
  clearPage pgtbl
  vmMappages pgtbl uartBase uartBase 1000 kernPerm
  vmMappages pgtbl plicBase plicBase 0x400000 kernPerm
  vmMappages pgtbl clintBase clintBase 0x10000 kernPerm
  vmMappages pgtbl virtioBase virtioBase 4096 kernPerm
  vmMappages pgtbl memStart memStart (memEnd - memStart) kernPerm
  vmMappages pgtbl (vaMax - 4096) trampoline 4096 (pteR ||| pteX)
  (List.range nCpu).forM fun index => mapStack pgtbl index

/-! ## The tables of the kernel -/

/-- The parts of 2 MiB of the address space in which `kvm_init` maps pages. -/
@[irreducible] def kernelParts : Finset Nat :=
  {16, 96, 97, 128, 130048, 131071} ∪ Finset.Ico 1024 1088

/-- The ways to the tables for a part of 2 MiB. -/
def pathsOf (part : Nat) : Finset (List (Fin 512)) :=
  {[Fin.ofNat 512 (part / 512), Fin.ofNat 512 part],
    [Fin.ofNat 512 (part / 512)]}

/-- The ways to the tables that `kvm_init` needs. -/
@[irreducible] def kernelPaths : Finset (List (Fin 512)) :=
  kernelParts.biUnion pathsOf

theorem card_kernelPaths : kernelPaths.card ≤ 140 := by
  have parts : kernelParts.card ≤ 70 := by
    unfold kernelParts
    refine Nat.le_trans (Finset.card_union_le _ _) ?_
    rw [Nat.card_Ico]
    decide
  have paths : kernelPaths.card ≤ kernelParts.card * 2 := by
    unfold kernelPaths
    exact Finset.card_biUnion_le_card_mul kernelParts pathsOf 2
      fun part _ => Finset.card_le_two
  omega

theorem pathTo_mem_kernelPaths
    {va : UInt64} (inside : va.toNat / 2 ^ 21 ∈ kernelParts) {level : Nat}
    (bound : level < 2) : pathTo va level ∈ kernelPaths := by
  have upper : vpn va 2 = Fin.ofNat 512 (va.toNat / 2 ^ 21 / 512) := by
    ext
    simp only [vpn, Fin.val_ofNat]
    omega
  have lower : vpn va 1 = Fin.ofNat 512 (va.toNat / 2 ^ 21) := by
    ext
    simp only [vpn, Fin.val_ofNat]
  unfold kernelPaths
  refine Finset.mem_biUnion.mpr ⟨_, inside, ?_⟩
  unfold pathsOf
  rw [Finset.mem_insert, Finset.mem_singleton, ← upper, ← lower]
  interval_cases level
  · exact Or.inl rfl
  · exact Or.inr rfl

/-- The kernel stacks are in pages of their own. -/
theorem kstackOf_toNat {index : Nat} (bound : index < nProc) :
    (kstackOf index).toNat = 0x3f80000000 + (index + 1) * 8192 := by
  have size : nProc = 64 := rfl
  unfold kstackOf
  rw [UInt64.toNat_add, UInt64.toNat_ofNat',
    show (0x3f80000000 : UInt64).toNat = 0x3f80000000 from rfl]
  omega

theorem pageOf_kstackOf {index : Nat} (bound : index < nProc) :
    pageOf (kstackOf index) = 0x3f80000 + (index + 1) * 2 := by
  have size : nProc = 64 := rfl
  unfold pageOf
  rw [kstackOf_toNat bound]
  omega

/-- A page of the kernel region is allocated. -/
theorem exists_alloc
    {mem : Mem.State} {free : Bool → List UInt64}
    (lists : FreeLists mem free) (some : 0 < (free true).length) :
    ∃ page mem', (pmemAlloc true).Runs mem page mem' ∧ page ≠ 0 ∧
      (mem'.region true).allocable.toNat + 1 = (free true).length := by
  have counted := lists.counted true
  cases isFree : free true with
  | nil =>
      rw [isFree] at some
      exact absurd some (Nat.lt_irrefl 0)
  | cons page rest =>
      have member : page ∈ free true := by
        rw [isFree]
        exact List.mem_cons_self
      obtain ⟨region, run, _⟩ := lists.alloc isFree
      refine ⟨page, _, run, lists.ne_null member, ?_⟩
      rcases pmemAlloc_runs.mp run with ⟨_, isNull, _⟩ | ⟨notZero, _, isFinal⟩
      · exact absurd isNull (lists.ne_null member)
      · have fewer := toNat_sub_one notZero
        rw [isFinal, setRegion_region_self, ← isFree]
        dsimp only
        omega

/-- The page table of the kernel while `kvm_init` fills it.  The stacks of the
first CPUs are mapped, and no others. -/
structure KernelTable (pgtbl : UInt64) (cpus : Nat)
    (held : Option Nat → UInt64) (mem : Mem.State)
    (free : Bool → List UInt64) : Prop where
  holds : Holds mem (fun _ : Unit => pgtbl) free held
  isKernel : mem.kernelPgtbl = pgtbl
  present : pgtbl ≠ 0
  given : ∀ index < cpus, held (some index) ≠ 0
  ptes : ∀ index < nProc, ∀ va, pageOf va = pageOf (kstackOf index) →
    pteAt mem.bytes pgtbl va =
      if index < cpus then leafPte (held (some index)) (pteR ||| pteW) else 0

namespace KernelTable

variable {pgtbl : UInt64} {cpus count : Nat} {held : Option Nat → UInt64}
  {mem mem' : Mem.State} {free free' : Bool → List UInt64}

/-- Pages outside of the kernel stacks are mapped. -/
theorem mapped
    (table : KernelTable pgtbl cpus held mem free) {first pages : Nat}
    {entry : Nat → UInt64}
    (isMapped : Mapped (fun _ : Unit => pgtbl) () first pages entry mem free
      mem' free')
    (off : ∀ index < nProc, ¬(first ≤ pageOf (kstackOf index) ∧
      pageOf (kstackOf index) < first + pages)) :
    KernelTable pgtbl cpus held mem' free' := by
  refine ⟨table.holds.grown isMapped.toGrown,
    isMapped.kernelPgtbl.trans table.isKernel, table.present, table.given,
    fun index bound va isPage => ?_⟩
  have kept := isMapped.outside () va fun inside => by
    rw [isPage] at inside
    exact off index bound inside.2
  rw [kept]
  exact table.ptes index bound va isPage

/-- A range of whole pages is mapped. -/
theorem mapRange
    (table : KernelTable pgtbl cpus held mem free)
    (spare : Spare mem pgtbl kernelPaths count) {va pa len perm : UInt64}
    {pages : Nat} (range : PageRange va (va + len) pages)
    (parts : ∀ index < pages,
      (va.toNat + 4096 * index) / 2 ^ 21 ∈ kernelParts)
    (off : ∀ index < nProc, ¬(va.toNat / 4096 ≤ pageOf (kstackOf index) ∧
      pageOf (kstackOf index) < va.toNat / 4096 + pages)) :
    ∃ mem' free', (vmMappages pgtbl va pa len perm).Runs mem () mem' ∧
      KernelTable pgtbl cpus held mem' free' ∧
      Spare mem' pgtbl kernelPaths count := by
  have isRoot : rootOf mem pgtbl = pgtbl := if_neg table.present
  have fueled : pages ≤ (va + len - va).toNat / pgSize + 1 := by
    have ends := range.ends
    have ordered : va ≤ va + len := by
      rw [UInt64.le_iff_toNat_le]
      omega
    rw [UInt64.toNat_sub_of_le _ _ ordered]
    unfold pgSize
    omega
  have along : ∀ index < pages, ∀ level < 2,
      pathTo (va + 4096 * UInt64.ofNat index) level ∈ kernelPaths := by
    intro index bound level bound'
    refine pathTo_mem_kernelPaths ?_ bound'
    rw [range.page_toNat bound]
    exact parts index bound
  obtain ⟨mem', run, spare'⟩ := @mapLoop_spare Unit (fun _ => pgtbl) mem free ()
    _ kernelPaths pgtbl va (va + len) pa perm pages _ table.holds.tables
    table.holds.lists isRoot table.present count range fueled along spare
  obtain ⟨free', isMapped⟩ := @mapLoop_mapped Unit (fun _ => pgtbl) mem mem' free
    () _ pgtbl va (va + len) pa perm pages _ table.holds.tables
    table.holds.lists isRoot table.present range fueled run
  exact ⟨mem', free', run, table.mapped isMapped off, spare'⟩

/-- A page is mapped, also if only a part of it is asked for. -/
theorem exists_mapped
    (table : KernelTable pgtbl cpus held mem free)
    (spare : Spare mem pgtbl kernelPaths count) {va pa len perm : UInt64}
    (more : va < va + len) (last : ¬va + 4096 < va + len) (low : va < vaMax)
    (part : va.toNat / 2 ^ 21 ∈ kernelParts) :
    ∃ mem' free', (vmMappages pgtbl va pa len perm).Runs mem () mem' ∧
      Mapped (fun _ : Unit => pgtbl) () (pageOf va) 1
        (fun _ => leafPte pa perm) mem free mem' free' ∧
      Spare mem' pgtbl kernelPaths count := by
  have isRoot : rootOf mem pgtbl = pgtbl := if_neg table.present
  have along : ∀ level < 2, pathTo va level ∈ kernelPaths :=
    fun level bound => pathTo_mem_kernelPaths part bound
  obtain ⟨mem', run⟩ := @mapPage_total Unit (fun _ => pgtbl) mem free () va _
    table.holds.tables table.holds.lists pgtbl isRoot table.present
    (leafPte pa perm) low kernelPaths along (spare.enough table.holds.lists)
  obtain ⟨_, free', isMapped, _⟩ := @mapPage_mapped Unit (fun _ => pgtbl) mem
    mem' free () va _ table.holds.tables table.holds.lists pgtbl isRoot
    table.present _ run
  have spare' := @mapPage_spare Unit (fun _ => pgtbl) mem mem' free () va _
    kernelPaths pgtbl table.holds.tables table.holds.lists isRoot table.present
    _ count along spare run
  refine ⟨mem', free', ?_, isMapped, spare'⟩
  unfold vmMappages
  exact (mapLoop_succ more).mpr ⟨mem', run, (mapLoop_none last).mpr rfl⟩

/-- A page outside of the kernel stacks is mapped. -/
theorem mapPart
    (table : KernelTable pgtbl cpus held mem free)
    (spare : Spare mem pgtbl kernelPaths count) {va pa len perm : UInt64}
    (more : va < va + len) (last : ¬va + 4096 < va + len) (low : va < vaMax)
    (part : va.toNat / 2 ^ 21 ∈ kernelParts)
    (off : ∀ index < nProc, pageOf (kstackOf index) ≠ pageOf va) :
    ∃ mem' free', (vmMappages pgtbl va pa len perm).Runs mem () mem' ∧
      KernelTable pgtbl cpus held mem' free' ∧
      Spare mem' pgtbl kernelPaths count := by
  obtain ⟨mem', free', run, isMapped, spare'⟩ :=
    table.exists_mapped spare more last low part
  refine ⟨mem', free', run, table.mapped isMapped fun index bound inside => ?_,
    spare'⟩
  have differs := off index bound
  omega

/-- A page of the kernel region is given to a stack. -/
theorem alloc
    (table : KernelTable pgtbl cpus held mem free)
    (spare : Spare mem pgtbl kernelPaths (count + 1)) :
    ∃ page mem' free', (pmemAlloc true).Runs mem page mem' ∧ page ≠ 0 ∧
      KernelTable pgtbl cpus (Function.update held (some cpus) page) mem'
        free' ∧
      Spare mem' pgtbl kernelPaths count := by
  have counted := table.holds.lists.counted true
  unfold Spare at spare
  obtain ⟨page, middle, run, notNull, fewer⟩ :=
    exists_alloc table.holds.lists (by omega)
  rcases table.holds.alloc (some cpus) run with
    ⟨isNull, _⟩ | ⟨_, sameBytes, sameKernel, free', holds⟩
  · exact absurd isNull notNull
  refine ⟨page, middle, free', run, notNull, ⟨holds,
    sameKernel.trans table.isKernel, table.present, fun index bound => ?_,
    fun index bound va isPage => ?_⟩, ?_⟩
  · rw [Function.update_of_ne fun same =>
      Nat.ne_of_lt bound (Option.some.inj same)]
    exact table.given index bound
  · rw [sameBytes, table.ptes index bound va isPage]
    by_cases isFirst : index < cpus
    · rw [if_pos isFirst, if_pos isFirst,
        Function.update_of_ne fun same =>
          Nat.ne_of_lt isFirst (Option.some.inj same)]
    · rw [if_neg isFirst, if_neg isFirst]
  · unfold Spare
    rw [sameBytes]
    omega

/-- The stack of the next CPU is mapped. -/
theorem mapStack
    (table : KernelTable pgtbl cpus held mem free) (bound : cpus < nProc)
    (spare : Spare mem pgtbl kernelPaths (count + 1)) :
    ∃ held' mem' free', (mapStack pgtbl cpus).Runs mem () mem' ∧
      KernelTable pgtbl (cpus + 1) held' mem' free' ∧
      Spare mem' pgtbl kernelPaths count := by
  obtain ⟨page, middle, free₁, allocated, notNull, table', spare'⟩ :=
    table.alloc spare
  have size : nProc = 64 := rfl
  have isVa := kstackOf_toNat bound
  have next : (kstackOf cpus + 4096).toNat = (kstackOf cpus).toNat + 4096 := by
    rw [UInt64.toNat_add, show (4096 : UInt64).toNat = 4096 from rfl]
    omega
  have more : kstackOf cpus < kstackOf cpus + 4096 := by
    rw [UInt64.lt_iff_toNat_lt]
    omega
  have low : kstackOf cpus < vaMax := by
    rw [UInt64.lt_iff_toNat_lt, show vaMax.toNat = 2 ^ 38 from rfl]
    omega
  have part : (kstackOf cpus).toNat / 2 ^ 21 ∈ kernelParts := by
    have isPart : (kstackOf cpus).toNat / 2 ^ 21 = 130048 := by omega
    rw [isPart]
    unfold kernelParts
    decide
  obtain ⟨mem', free', run, isMapped, spare''⟩ := @exists_mapped _ _ _ _ _ _
    table' spare' (kstackOf cpus) page 4096 (pteR ||| pteW) more
    (UInt64.lt_irrefl _) low part
  refine ⟨_, mem', free', ?_, ⟨table'.holds.grown isMapped.toGrown,
    isMapped.kernelPgtbl.trans table'.isKernel, table'.present,
    fun index below => ?_, fun index inside va isPage => ?_⟩, spare''⟩
  · unfold Process.mapStack
    rw [allocated.bind_iff]
    exact Program.runs_bind.mpr ⟨(), middle, Program.runs_assert.mpr
      ⟨decide_eq_true notNull, rfl⟩, run⟩
  · rcases Nat.lt_succ_iff_lt_or_eq.mp below with isFirst | rfl
    · exact table'.given index isFirst
    · rw [Function.update_self]
      exact notNull
  · have own := pageOf_kstackOf bound
    have other := pageOf_kstackOf inside
    by_cases isNew : index = cpus
    · rw [isNew] at isPage ⊢
      have stored := isMapped.inside 0 Nat.one_pos va isPage
      rw [stored, if_pos (Nat.lt_succ_self cpus), Function.update_self]
    · have kept := isMapped.outside () va fun inPage => by omega
      rw [kept, table'.ptes index inside va isPage]
      by_cases isFirst : index < cpus
      · rw [if_pos isFirst, if_pos (Nat.lt_succ_of_lt isFirst)]
      · rw [if_neg isFirst, if_neg (by omega)]

end KernelTable

/-- The page table of the kernel before anything is mapped. -/
theorem exists_kernelTable
    {mem : Mem.State} {free : Bool → List UInt64} {count : Nat}
    (lists : FreeLists mem free)
    (inRam : ∀ inKernel, ∀ page ∈ free inKernel, InRam page)
    (many : kernelPaths.card + count < (free true).length) :
    ∃ pgtbl allocated mem' free', (pmemAlloc true).Runs mem pgtbl allocated ∧
      (clearPage pgtbl).Runs (setKernelPgtbl allocated pgtbl) () mem' ∧
      KernelTable pgtbl 0 (fun _ => 0) mem' free' ∧
      Spare mem' pgtbl kernelPaths count := by
  have holds : Holds mem (fun _ : Unit => 0) free
      (fun _ : Option Nat => 0) :=
    ⟨lists, tables_none _ _, inRam, fun _ some => absurd rfl some,
      fun _ some => absurd rfl some, fun _ some => absurd rfl some,
      fun _ _ some => absurd rfl some⟩
  obtain ⟨page, allocated, run, notNull, fewer⟩ := exists_alloc lists (by omega)
  rcases holds.alloc none run with
    ⟨isNull, _⟩ | ⟨_, _, _, free', holds₁⟩
  · exact absurd isNull notNull
  have isHeld : Function.update (fun _ : Option Nat => (0 : UInt64)) none page
      none = page := Function.update_self _ _ _
  have some : Function.update (fun _ : Option Nat => (0 : UInt64)) none page
      none ≠ 0 := by
    rw [isHeld]
    exact notNull
  have written : ChangedIn (Function.update (fun _ : Option Nat => (0 : UInt64))
      none page none) allocated.bytes (clearedBytes allocated.bytes page) := by
    rw [isHeld]
    exact changedIn_cleared _ _
  have holds₂ := holds₁.write some written
  have empty : ∀ index, entryOf (allocated.setBytes
      (clearedBytes allocated.bytes page)).bytes (Function.update
        (fun _ : Option Nat => (0 : UInt64)) none page none) index = 0 := by
    intro index
    rw [isHeld]
    exact entryOf_cleared _ _ _
  have holds₃ := holds₂.addRoot some empty ()
  rw [isHeld, Function.update_idem, Function.update_eq_self] at holds₃
  have root : Function.update (fun _ : Unit => (0 : UInt64)) () page =
      fun _ => page := by
    funext r
    exact Function.update_self _ _ _
  rw [root] at holds₃
  have lists₃ := holds₃.lists
  refine ⟨page, allocated, (setKernelPgtbl allocated page).setBytes
    (clearedBytes allocated.bytes page), free', run,
    (clearPage_runs notNull).mpr rfl, ⟨⟨⟨lists₃.linked, lists₃.counted,
      lists₃.nodup, lists₃.unique, lists₃.aligned⟩, holds₃.tables,
      holds₃.freeRam, holds₃.inRam, holds₃.notFree, holds₃.notTable,
      holds₃.unique⟩, rfl, notNull, fun index below =>
      absurd below (Nat.not_lt_zero index), fun index _ va _ => ?_⟩, ?_⟩
  · rw [if_neg (Nat.not_lt_zero index)]
    exact pteAt_empty (entryOf_cleared _ _) va
  · have subset : (missing (clearedBytes allocated.bytes page) page
        kernelPaths).card ≤ kernelPaths.card :=
      Finset.card_filter_le _ _
    change (missing (clearedBytes allocated.bytes page) page
      kernelPaths).card + count ≤ (allocated.region true).allocable.toNat
    omega

/-- `kvm_init` returns if the kernel has enough free pages, and leaves the
others. -/
theorem kvmInit_spare
    {mem : Mem.State} {free : Bool → List UInt64} {count : Nat}
    (lists : FreeLists mem free)
    (inRam : ∀ inKernel, ∀ page ∈ free inKernel, InRam page)
    (many : 150 + count ≤ (free true).length) (trampoline : UInt64) :
    ∃ pgtbl held kernel free', (kvmInit trampoline).Runs mem () kernel ∧
      KernelTable pgtbl nCpu held kernel free' ∧
      Spare kernel pgtbl kernelPaths count := by
  have few := card_kernelPaths
  have size : nProc = 64 := rfl
  obtain ⟨pgtbl, allocated, mem₀, _, allocates, clears, table₀, spare₀⟩ :=
    @exists_kernelTable mem free (count + 2) lists inRam (by omega)
  obtain ⟨mem₁, _, uart, table₁, spare₁⟩ := @KernelTable.mapPart _ _ _ _ _ _
    table₀ spare₀ uartBase uartBase 1000 kernPerm (by decide) (by decide)
    (by decide) (by unfold kernelParts; decide) fun index bound => by
      rw [pageOf_kstackOf bound, show pageOf uartBase = 0x10000 from rfl]
      omega
  obtain ⟨mem₂, _, plic, table₂, spare₂⟩ := @KernelTable.mapRange _ _ _ _ _ _
    table₁ spare₁ plicBase plicBase 0x400000 kernPerm 1024
    ⟨by decide, by decide, by decide⟩ (fun index bound => by
      have isPart : (plicBase.toNat + 4096 * index) / 2 ^ 21 = 96 ∨
          (plicBase.toNat + 4096 * index) / 2 ^ 21 = 97 := by
        rw [show plicBase.toNat = 0x0c000000 from rfl]
        omega
      unfold kernelParts
      rcases isPart with isPart | isPart <;> rw [isPart] <;> decide)
    fun index bound => by
      rw [pageOf_kstackOf bound, show plicBase.toNat = 0x0c000000 from rfl]
      omega
  obtain ⟨mem₃, _, clint, table₃, spare₃⟩ := @KernelTable.mapRange _ _ _ _ _ _
    table₂ spare₂ clintBase clintBase 0x10000 kernPerm 16
    ⟨by decide, by decide, by decide⟩ (fun index bound => by
      have isPart : (clintBase.toNat + 4096 * index) / 2 ^ 21 = 16 := by
        rw [show clintBase.toNat = 0x2000000 from rfl]
        omega
      rw [isPart]
      unfold kernelParts
      decide)
    fun index bound => by
      rw [pageOf_kstackOf bound, show clintBase.toNat = 0x2000000 from rfl]
      omega
  obtain ⟨mem₄, _, virtio, table₄, spare₄⟩ := @KernelTable.mapPart _ _ _ _ _ _
    table₃ spare₃ virtioBase virtioBase 4096 kernPerm (by decide) (by decide)
    (by decide) (by unfold kernelParts; decide) fun index bound => by
      rw [pageOf_kstackOf bound, show pageOf virtioBase = 0x10001 from rfl]
      omega
  obtain ⟨mem₅, _, memory, table₅, spare₅⟩ := @KernelTable.mapRange _ _ _ _ _ _
    table₄ spare₄ memStart memStart (memEnd - memStart) kernPerm 32768
    ⟨by decide, by decide, by decide⟩ (fun index bound => by
      have isStart : memStart.toNat = 0x80000000 := rfl
      unfold kernelParts
      refine Finset.mem_union_right _ (Finset.mem_Ico.mpr ⟨?_, ?_⟩) <;> omega)
    fun index bound => by
      rw [pageOf_kstackOf bound, show memStart.toNat = 0x80000000 from rfl]
      omega
  obtain ⟨mem₆, _, code, table₆, spare₆⟩ := @KernelTable.mapPart _ _ _ _ _ _
    table₅ spare₅ (vaMax - 4096) trampoline 4096 (pteR ||| pteX) (by decide)
    (by decide) (by decide) (by unfold kernelParts; decide) fun index bound => by
      rw [pageOf_kstackOf bound,
        show pageOf (vaMax - 4096) = 0x3ffffff from rfl]
      omega
  obtain ⟨_, mem₇, _, first, table₇, spare₇⟩ :=
    table₆.mapStack (by omega) spare₆
  obtain ⟨held, kernel, free', second, table, spare⟩ :=
    table₇.mapStack (by omega) spare₇
  refine ⟨pgtbl, held, kernel, free', ?_, table, spare⟩
  have stacksRun : ((List.range nCpu).forM fun index =>
      Process.mapStack pgtbl index).Runs mem₆ () kernel :=
    Program.runs_bind.mpr ⟨(), mem₇, first, Program.runs_bind.mpr
      ⟨(), kernel, second, Program.runs_pure.mpr ⟨rfl, rfl⟩⟩⟩
  unfold kvmInit
  rw [allocates.bind_iff]
  refine Program.runs_bind.mpr ⟨(), _, Program.runs_modify.mpr rfl, ?_⟩
  rw [clears.bind_iff, uart.bind_iff, plic.bind_iff, clint.bind_iff,
    virtio.bind_iff, memory.bind_iff, code.bind_iff]
  exact stacksRun

/-- `kvm_init` returns if the kernel has enough free pages. -/
theorem kvmInit_runs
    {mem : Mem.State} {free : Bool → List UInt64}
    (lists : FreeLists mem free)
    (inRam : ∀ inKernel, ∀ page ∈ free inKernel, InRam page)
    (many : 150 ≤ (free true).length) (trampoline : UInt64) :
    ∃ pgtbl held kernel free', (kvmInit trampoline).Runs mem () kernel ∧
      KernelTable pgtbl nCpu held kernel free' := by
  obtain ⟨pgtbl, held, kernel, free', run, table, _⟩ :=
    @kvmInit_spare mem free 0 lists inRam many trampoline
  exact ⟨pgtbl, held, kernel, free', run, table⟩

/-! ## The kernel after its start -/

/-- The free lists after `pmem_init`. -/
theorem managed_freeLists
    {layout : Layout} {mem : Mem.State}
    (managed : Managed layout ⟨mem, fun _ => []⟩)
    (some : layout.count false ≠ 0) :
    ∃ free, FreeLists mem free ∧
      (∀ inKernel, ∀ page ∈ free inKernel, InRam page) ∧
      150 ≤ (free true).length := by
  choose free manages using managed
  have isPages : ∀ inKernel, (free inKernel).Perm (layout.pages inKernel) := by
    intro inKernel
    have complete := (manages inKernel).complete
    rwa [List.append_nil] at complete
  have count : ∀ inKernel, layout.count inKernel ≠ 0 := by
    intro inKernel
    cases inKernel with
    | true =>
        have bounds := layout.boundary_toNat
        have pages : kernelPages * pgSize = 8388608 := rfl
        unfold Layout.count
        simp only [Layout.start, Layout.stop]
        omega
    | false => exact some
  have member : ∀ inKernel, ∀ page ∈ free inKernel,
      page ∈ layout.pages inKernel :=
    fun inKernel page isFree => (isPages inKernel).mem_iff.mp isFree
  refine ⟨free, ⟨fun inKernel => (manages inKernel).linked (count inKernel),
    fun inKernel => (manages inKernel).counted,
    fun inKernel => (isPages inKernel).nodup_iff.mpr
      (layout.nodup_pages inKernel),
    fun inKernel other page isFree isFree' => layout.eq_of_mem_pages
      (member other page isFree') (member inKernel page isFree),
    fun inKernel page isFree => layout.aligned_of_mem
      (member inKernel page isFree)⟩, fun inKernel page isFree => ?_, ?_⟩
  · obtain ⟨aligned, low, below⟩ :=
      layout.mem_pages.mp (member inKernel page isFree)
    have bounds := layout.bounds inKernel
    rw [UInt64.le_iff_toNat_le] at low
    rw [UInt64.lt_iff_toNat_lt] at below
    exact ⟨aligned, by omega, by omega⟩
  · have bounds := layout.boundary_toNat
    have pages : kernelPages * pgSize = 8388608 := rfl
    rw [(isPages true).length_eq]
    unfold Layout.pages Layout.count
    rw [List.length_map, List.length_range]
    simp only [Layout.start, Layout.stop]
    omega

/-- Memory after `pmem_init` and `kvm_init`, on a machine that has pages for
users. -/
def KernelBuilt (kernel : Mem.State) : Prop :=
  ∃ layout : Layout, layout.count false ≠ 0 ∧ ∃ before mem trampoline,
    (pmemInit layout.allocBegin).Runs before () mem ∧
    (kvmInit trampoline).Runs mem () kernel

/-- The page at an address of the kernel is mapped, readable and writable, to a
physical page. -/
def StackMapped (kernel : Mem.State) (kstack page : UInt64) : Prop :=
  ∀ offset < 4096, ∃ flags,
    translate kernel.bytes kernel.kernelPgtbl (kstack + offset) =
      some (page + offset, flags) ∧
    flags &&& pteR ≠ 0 ∧ flags &&& pteW ≠ 0

/-- Every process has a kernel stack of its own. -/
structure OwnStacks (kernel : Mem.State) (state : State) : Prop where
  mapped : ∀ slot, (state.procs slot).state ≠ .unused →
    ∃ page, StackMapped kernel (state.procs slot).kstack page
  own : ∀ slot slot' page, (state.procs slot).state ≠ .unused →
    (state.procs slot').state ≠ .unused →
    StackMapped kernel (state.procs slot).kstack page →
    StackMapped kernel (state.procs slot').kstack page → slot = slot'

theorem stackRange {index : Nat} (bound : index < nProc) :
    PageRange (kstackOf index) (kstackOf index + 4096) 1 := by
  have size : nProc = 64 := rfl
  have isVa := kstackOf_toNat bound
  have stop : (kstackOf index + 4096).toNat = (kstackOf index).toNat + 4096 := by
    rw [UInt64.toNat_add, show (4096 : UInt64).toNat = 4096 from rfl]
    omega
  refine ⟨?_, by omega, by omega⟩
  unfold Aligned
  omega

/-- The stacks with the numbers of CPUs are mapped, and no others are. -/
theorem KernelTable.stackMapped_iff
    {pgtbl : UInt64} {held : Option Nat → UInt64} {kernel : Mem.State}
    {free : Bool → List UInt64}
    (table : KernelTable pgtbl nCpu held kernel free) {index : Nat}
    (bound : index < nProc) (page : UInt64) :
    StackMapped kernel (kstackOf index) page ↔
      index < nCpu ∧ page = held (some index) := by
  have range := stackRange bound
  have isLeaf : ∀ offset : UInt64, offset < 4096 →
      translate kernel.bytes pgtbl (kstackOf index + offset) =
        leafOf (if index < nCpu then
          leafPte (held (some index)) (pteR ||| pteW) else 0)
          (kstackOf index + offset) := by
    intro offset inPage
    have inPage' : offset.toNat < 4096 * 1 := by
      rw [UInt64.lt_iff_toNat_lt] at inPage
      exact inPage
    have samePage : pageOf (kstackOf index + offset) =
        pageOf (kstackOf index) := by
      rw [range.pageOf_address inPage', range.pageOf_start]
      omega
    have isPte := table.ptes index bound _ samePage
    have walk := @translate_eq Unit (fun _ => pgtbl) kernel free ()
      table.holds.tables table.present (kstackOf index + offset)
    rw [walk, if_pos (range.canonical inPage'), isPte]
  unfold StackMapped
  rw [table.isKernel]
  by_cases isCpu : index < nCpu
  · have given : ∀ offset : UInt64, offset < 4096 →
        translate kernel.bytes pgtbl (kstackOf index + offset) =
          some (held (some index) + offset, pteR ||| pteW ||| pteV) := by
      intro offset inPage
      have inPage' : offset.toNat < 4096 * 1 := by
        rw [UInt64.lt_iff_toNat_lt] at inPage
        exact inPage
      have aligned :=
        (table.holds.inRam (some index) (table.given index isCpu)).1
      have leaf := @leafOf_leafPte _ _ _ (held (some index)) (pteR ||| pteW)
        offset range inPage' aligned (by decide)
      have first : offset.toNat / 4096 = 0 := by omega
      have same : held (some index) + 4096 * UInt64.ofNat 0 =
          held (some index) := UInt64.add_zero _
      rw [first, same] at leaf
      rw [isLeaf offset inPage, if_pos isCpu, leaf]
    constructor
    · intro mapped
      obtain ⟨flags, isPage, _⟩ := mapped 0 (by decide)
      rw [given 0 (by decide)] at isPage
      have same := (Prod.mk.inj (Option.some.inj isPage)).1
      rw [UInt64.add_zero, UInt64.add_zero] at same
      exact ⟨isCpu, same.symm⟩
    · rintro ⟨_, rfl⟩ offset inPage
      exact ⟨_, given offset inPage, by decide, by decide⟩
  · constructor
    · intro mapped
      obtain ⟨flags, isPage, _⟩ := mapped 0 (by decide)
      rw [isLeaf 0 (by decide), if_neg isCpu] at isPage
      exact nomatch isPage
    · rintro ⟨isCpu', _⟩
      exact absurd isCpu' isCpu

/-- Each CPU has a stack page of its own. -/
theorem KernelBuilt.exists_pages
    {kernel : Mem.State} (built : KernelBuilt kernel) :
    ∃ stackPage : Nat → UInt64,
      (∀ index < nCpu, ∀ index' < nCpu,
        stackPage index = stackPage index' → index = index') ∧
      ∀ index < nProc, ∀ page, StackMapped kernel (kstackOf index) page ↔
        index < nCpu ∧ page = stackPage index := by
  obtain ⟨layout, someUser, before, mem, trampoline, init, kvm⟩ := built
  obtain ⟨free, lists, inRam, many⟩ :=
    managed_freeLists (pmemInit_managed layout init) someUser
  obtain ⟨pgtbl, held, kernel', free', run, table⟩ :=
    kvmInit_runs lists inRam many trampoline
  obtain ⟨_, rfl⟩ := run.deterministic kvm
  refine ⟨fun index => held (some index), fun index bound index' _ same =>
    Option.some.inj (table.holds.unique _ _ (table.given index bound) same),
    fun index bound page => table.stackMapped_iff bound page⟩

/-- If the processes use the stacks of their slots, these are mapped as long as
the slots have the numbers of CPUs. -/
theorem KernelBuilt.ownStacks_iff
    {kernel : Mem.State} (built : KernelBuilt kernel) {state : State}
    (isStack : ∀ slot, (state.procs slot).state ≠ .unused →
      (state.procs slot).kstack = kstackOf slot) :
    OwnStacks kernel state ↔
      ∀ slot, (state.procs slot).state ≠ .unused → slot.val < nCpu := by
  obtain ⟨stackPage, distinct, mapped⟩ := built.exists_pages
  constructor
  · intro own slot isUsed
    obtain ⟨page, isMapped⟩ := own.mapped slot isUsed
    rw [isStack slot isUsed] at isMapped
    exact ((mapped slot slot.isLt page).mp isMapped).1
  · intro low
    refine ⟨fun slot isUsed => ⟨stackPage slot, ?_⟩,
      fun slot slot' page isUsed isUsed' isPage isPage' => ?_⟩
    · rw [isStack slot isUsed]
      exact (mapped slot slot.isLt _).mpr ⟨low slot isUsed, rfl⟩
    · rw [isStack slot isUsed] at isPage
      rw [isStack slot' isUsed'] at isPage'
      have first := (mapped slot slot.isLt page).mp isPage
      have second := (mapped slot' slot'.isLt page).mp isPage'
      exact Fin.ext (distinct slot first.1 slot' second.1
        (first.2.symm.trans second.2))

/-! ## Runs -/

/-- The processes after the start of the kernel.  The first process is made by
CPU 0. -/
def stackSystem : TransitionSystem TreeRun (Pid × ProcCall) where
  Init run := run.exits = [] ∧ run.reaps = [] ∧
    ∃ boot before, before.procs = (fun _ => emptyProc) ∧
      before.globalPid = 1 ∧ boot.cpuid = 0 ∧
      (procMakeFirst boot).Runs before () run.state
  Step := TreeStep

/-- The processes that exist use the stacks of their slots. -/
def UsesOwnSlot (state : State) : Prop :=
  ∀ slot, (state.procs slot).state ≠ .unused →
    (state.procs slot).kstack = kstackOf slot

/-- A process keeps its stack. -/
structure KeepsStack (before after : Proc) : Prop where
  kstack : after.kstack = before.kstack
  used : after.state ≠ .unused → before.state ≠ .unused

namespace KeepsStack

theorem refl (proc : Proc) : KeepsStack proc proc :=
  ⟨rfl, fun isUsed => isUsed⟩

theorem trans
    {first second third : Proc} (lower : KeepsStack first second)
    (upper : KeepsStack second third) : KeepsStack first third :=
  ⟨upper.kstack.trans lower.kstack, fun isUsed => lower.used (upper.used isUsed)⟩

theorem of_woken
    {before after : Proc} (woken : Woken before after) :
    KeepsStack before after := by
  rcases woken with rfl | ⟨sleeping, rfl⟩
  · exact refl _
  · refine ⟨rfl, fun _ => ?_⟩
    rw [sleeping]
    decide

theorem reparented (proc : Proc) (curr : Pid) :
    KeepsStack proc (proc.reparented curr) := by
  unfold Proc.reparented
  split
  · exact ⟨rfl, fun isUsed => isUsed⟩
  · exact refl _

/-- One process is replaced. -/
theorem setProc
    {state : State} {curr : Pid} {proc : Proc}
    (keeps : KeepsStack (state.procs curr) proc) (slot : Pid) :
    KeepsStack (state.procs slot) ((state.setProc curr proc).procs slot) := by
  by_cases same : slot = curr
  · rw [same, setProc_procs_self]
    exact keeps
  · rw [setProc_procs_of_ne same]
    exact refl _

end KeepsStack

namespace UsesOwnSlot

variable {state final : State} {curr : Pid}

theorem keep
    (uses : UsesOwnSlot state)
    (keeps : ∀ slot, KeepsStack (state.procs slot) (final.procs slot)) :
    UsesOwnSlot final := by
  intro slot isUsed
  rw [(keeps slot).kstack]
  exact uses slot ((keeps slot).used isUsed)

/-- `proc_make_first` gives the first process the stack of CPU 0. -/
theorem first
    {boot : BootData} (procs : state.procs = fun _ => emptyProc)
    (isFirst : boot.cpuid = 0) (run : (procMakeFirst boot).Runs state () final) :
    UsesOwnSlot final ∧
      ∀ slot, (final.procs slot).state ≠ .unused → slot = procZero := by
  obtain ⟨pgtbl, tf, isFinal, _⟩ := procMakeFirst_runs run
  have only : ∀ slot, (final.procs slot).state ≠ .unused →
      slot = procZero := by
    intro slot isUsed
    by_contra other
    rw [isFinal, Function.update_of_ne other, procs] at isUsed
    exact isUsed rfl
  refine ⟨fun slot isUsed => ?_, only⟩
  rw [only slot isUsed, isFinal, Function.update_self, isFirst]
  rfl

/-- What `proc_fork` does to the slots. -/
theorem fork
    (uses : UsesOwnSlot state) (isUsed : (state.procs curr).state ≠ .unused)
    {pid : Int} (run : (procFork curr).Runs state pid final) :
    UsesOwnSlot final ∧ ∀ slot, (final.procs slot).state ≠ .unused →
      (state.procs slot).state ≠ .unused ∨ unusedSlot state = some slot := by
  rcases procFork_runs isUsed run with
    ⟨_, rfl⟩ | ⟨child, found, _, ⟨_, mem, rfl⟩ |
      ⟨tf, pgtbl, _, _, _, mem, _, _, _, _, _, _, _, rfl⟩⟩
  · exact ⟨uses, fun slot isUsed => Or.inl isUsed⟩
  · have keeps : ∀ slot, KeepsStack (state.procs slot)
        ((((state.setGlobalPid (wrapInt (state.globalPid + 1))).setMem
          mem).setProc child (state.procs child).freed).procs slot) :=
      KeepsStack.setProc ⟨rfl, fun isUsed => absurd rfl isUsed⟩
    exact ⟨uses.keep keeps, fun slot isUsed => Or.inl ((keeps slot).used isUsed)⟩
  · refine ⟨fun slot isUsed => ?_, fun slot isUsed => ?_⟩
    · by_cases same : slot = child
      · rw [same, setProc_procs_self]
        rfl
      · rw [setProc_procs_of_ne same] at isUsed ⊢
        exact uses slot isUsed
    · by_cases same : slot = child
      · rw [same]
        exact Or.inr found
      · rw [setProc_procs_of_ne same] at isUsed
        exact Or.inl isUsed

theorem sleep
    {chan : Option Channel} (isUsed : (state.procs curr).state ≠ .unused)
    (run : (procSleep curr chan).Runs state () final) (slot : Pid) :
    KeepsStack (state.procs slot) (final.procs slot) := by
  simp only [procSleep, runs_modifyProc] at run
  subst run
  refine KeepsStack.setProc ?_ slot
  exact ⟨rfl, fun _ => isUsed⟩

/-- Calls other than `fork` keep the stacks, and add no processes. -/
theorem keeps
    {before after : TreeRun} {call : ProcCall} (step : TreeStep before
      (curr, call) after) (notFork : call ≠ .fork) (slot : Pid) :
    KeepsStack (before.state.procs slot) (after.state.procs slot) := by
  cases step with
  | fork => exact absurd rfl notFork
  | @exit _ exitState after alive exits =>
      obtain ⟨_, _, _, _, procs, woken, isFinal⟩ := procExit_runs exits
      have stays : ∀ slot, KeepsStack (before.state.procs slot) (procs slot) :=
        fun slot => (KeepsStack.reparented _ curr).trans
          (KeepsStack.of_woken (woken slot))
      rw [isFinal]
      by_cases same : slot = curr
      · rw [same, Function.update_self]
        exact ⟨(stays curr).kstack, fun _ => alive.1⟩
      · rw [Function.update_of_ne same]
        exact stays slot
  | wait alive waits =>
      rcases procWait_runs waits with
        ⟨child, _, mem, _, _, _, _, rfl⟩ | ⟨_, _, _, sleeps⟩ | ⟨_, _, rfl⟩
      · refine @KeepsStack.setProc before.state child _ ?_ slot
        exact ⟨rfl, fun isUsed => absurd rfl isUsed⟩
      · exact sleep alive.1 sleeps slot
      · exact KeepsStack.refl _
  | yield alive yields =>
      simp only [procYield, runs_modifyProc] at yields
      subst yields
      refine @KeepsStack.setProc before.state curr _ ?_ slot
      exact ⟨rfl, fun _ => alive.1⟩
  | sleep alive sleeps => exact sleep alive.1 sleeps slot
  | wakeup alive wakes =>
      obtain ⟨_, _, _, _, woken⟩ := procWakeup_runs wakes
      exact KeepsStack.of_woken (woken slot)
  | schedule runnable =>
      refine @KeepsStack.setProc before.state curr _ ?_ slot
      refine ⟨rfl, fun _ => ?_⟩
      rw [runnable]
      decide

/-- Every call keeps the stacks of the slots. -/
theorem step
    {before after : TreeRun} {action : Pid × ProcCall}
    (uses : UsesOwnSlot before.state)
    (step : TreeStep before action after) : UsesOwnSlot after.state := by
  obtain ⟨curr, call⟩ := action
  by_cases isFork : call = .fork
  · subst isFork
    cases step with
    | fork alive forks => exact (uses.fork alive.1 forks).1
  · exact uses.keep (keeps step isFork)

end UsesOwnSlot

/-- A `fork` for which one of the first slots, as many as there are CPUs, is
unused. -/
def ForksLow (before : TreeRun) : Pid × ProcCall → Prop
  | (_, .fork) => ∀ slot, unusedSlot before.state = some slot → slot.val < nCpu
  | _ => True

/-- The processes use the stacks of their slots, and these have the numbers of
CPUs. -/
structure LowStacks (run : TreeRun) : Prop where
  own : UsesOwnSlot run.state
  low : ∀ slot, (run.state.procs slot).state ≠ .unused → slot.val < nCpu

theorem LowStacks.step
    {before after : TreeRun} {action : Pid × ProcCall} (holds : LowStacks before)
    (allowed : ForksLow before action) (step : TreeStep before action after) :
    LowStacks after := by
  obtain ⟨curr, call⟩ := action
  refine ⟨holds.own.step step, fun slot isUsed => ?_⟩
  by_cases isFork : call = .fork
  · subst isFork
    cases step with
    | fork alive forks =>
        rcases (holds.own.fork alive.1 forks).2 slot isUsed with
          wasUsed | found
        · exact holds.low slot wasUsed
        · exact allowed slot found
  · exact holds.low slot ((UsesOwnSlot.keeps step isFork slot).used isUsed)

/-- A machine whose kernel was just started. -/
theorem exists_kernelBuilt : ∃ kernel, KernelBuilt kernel := by
  have user : firstLayout.count false ≠ 0 := by
    have bounds := firstLayout.boundary_toNat
    have pages : kernelPages * pgSize = 8388608 := rfl
    have last : allocEnd.toNat = 2281701376 := rfl
    have isStart : firstLayout.allocBegin.toNat = 0x80000000 := rfl
    unfold Layout.count
    simp only [Layout.start, Layout.stop]
    omega
  obtain ⟨mem, init, _⟩ := pmemInit_total firstLayout.allocBegin emptyState
  obtain ⟨free, lists, inRam, many⟩ :=
    managed_freeLists (pmemInit_managed firstLayout init) user
  obtain ⟨_, _, kernel, _, kvm, _⟩ :=
    kvmInit_runs lists inRam many 0x80005000
  exact ⟨kernel, firstLayout, user, emptyState, mem, _, init, kvm⟩

/-- The machine with few pages, but 35 in the kernel region. -/
def roomyState : State :=
  ⟨⟨chainedBytes, ⟨0x80020000, 0x80820000, 35, 0x800f0000⟩,
      ⟨0x80820000, 0x88000000, 20, 0x80900000⟩, 0⟩,
    fun _ => emptyProc, 1, 0x80005000⟩

/-- The first process forks twice. -/
def twoForks : ProcM Unit := do
  procMakeFirst smallBoot
  let first ← Program.get
  Program.assert ((first.procs 0).state = .runnable) "not runnable"
  let _ ← procFork 0
  let second ← Program.get
  Program.assert ((second.procs 0).state = .runnable) "not runnable"
  let _ ← procFork 0
  let third ← Program.get
  Program.assert ((third.procs 2).state = .runnable) "not runnable"

theorem twoForks_returns : (twoForks.exec roomyState).isOk = true := by
  decide +kernel

end Process
end WhuOs
