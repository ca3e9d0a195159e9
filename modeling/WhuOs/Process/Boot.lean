import WhuOs.Process.Start

/-!
# The kernel boots

The kernel region has enough pages for the page table of the kernel and for the
first process, so `kvm_init` and `proc_make_first` return.
-/

namespace WhuOs
namespace Process

open Library
open Library.Bytes
open Mem
open Program (Runs)

/-! ## Room in the kernel region -/

section Room

variable {ρ : Type} [DecidableEq ρ] {root : ρ → UInt64} {r : ρ}
  {paths : Finset (List (Fin 512))} {mem : Mem.State} {count : Nat}

/-- The kernel region has a page for each table that is missing on some paths,
and some more. -/
def Roomy (root : ρ → UInt64) (r : ρ) (paths : Finset (List (Fin 512)))
    (count : Nat) (mem : Mem.State) : Prop :=
  (∃ free, Tables mem.bytes root free ∧ FreeLists mem free) ∧
    Spare mem (root r) paths count

omit [DecidableEq ρ] in
/-- A page is allocated. -/
theorem Roomy.alloc (roomy : Roomy root r paths (count + 1) mem) :
    ∃ page mem', (pmemAlloc true).Runs mem page mem' ∧ page ≠ 0 ∧
      Roomy root r paths count mem' := by
  rcases roomy with ⟨⟨free, tables, lists⟩, spare⟩
  have counted := lists.counted true
  unfold Spare at spare
  cases isFree : free true with
  | nil =>
      rw [isFree, List.length_nil] at counted
      omega
  | cons page rest =>
      rcases lists.alloc isFree with ⟨region, run, lists'⟩
      have counted' := lists'.counted true
      rw [Function.update_self] at counted'
      rw [isFree, List.length_cons] at counted
      have notNull := lists.ne_null (show page ∈ free true by
        rw [isFree]
        exact List.mem_cons_self)
      have fewer : ∀ inKernel, ∀ node ∈ Function.update free true rest inKernel,
          node ∈ free inKernel :=
        fun _ _ member => FreeLists.mem_of_mem_rest isFree member
      have sameBytes := pmemAlloc_bytes run
      refine ⟨page, _, run, notNull, ⟨_, ?_, lists'⟩, ?_⟩
      · rw [sameBytes]
        exact tables.mono fewer
      · unfold Spare
        rw [sameBytes]
        omega

/-- A page is mapped. -/
theorem Roomy.map
    (roomy : Roomy root r paths count mem) (present : root r ≠ 0) {va : UInt64}
    (aligned : Aligned va) (low : va.toNat + 4096 ≤ 2 ^ 38)
    (along : ∀ level < 2, pathTo va level ∈ paths) (pa perm : UInt64) :
    ∃ mem', (vmMappages (root r) va pa 4096 perm).Runs mem () mem' ∧
      Roomy root r paths count mem' := by
  rcases roomy with ⟨⟨free, tables, lists⟩, spare⟩
  have size : (4096 : UInt64).toNat = 4096 := rfl
  have isRoot : rootOf mem (root r) = root r := if_neg present
  have ends : (va + 4096).toNat = va.toNat + 4096 := by
    rw [UInt64.toNat_add, size]
    omega
  have range : PageRange va (va + 4096) 1 := ⟨aligned, by omega, by omega⟩
  have along' : ∀ index < 1, ∀ level < 2,
      pathTo (va + 4096 * UInt64.ofNat index) level ∈ paths := by
    intro index bound level bound'
    have first : index = 0 := by omega
    rw [first, offset_zero]
    exact along level bound'
  rcases @mapLoop_spare ρ root mem free r _ paths (root r) va (va + 4096) pa
    perm 1 _ tables lists isRoot present count range (Nat.le_add_left 1 _)
    along' spare with ⟨mem', run, spare'⟩
  rcases vmMappages_page tables lists present aligned low run with
    ⟨free', mapped⟩
  exact ⟨mem', run, ⟨free', mapped.tables, mapped.lists⟩, spare'⟩

end Room

/-! ## The first process -/

variable {kernel : Mem.State} {trampoline : UInt64}
  {free : Bool → List UInt64}

/-- The pages that are mapped for the first process. -/
def firstVas : List UInt64 :=
  [trampolineVa, trapframeVa, trapframeVa - 8192, trapframeVa - 8192 + 4096,
    4096]

/-- The tables for these pages. -/
def firstPaths : Finset (List (Fin 512)) :=
  (firstVas.flatMap fun va => [pathTo va 0, pathTo va 1]).toFinset

theorem card_firstPaths : firstPaths.card ≤ 10 :=
  List.toFinset_card_le _

theorem mem_firstPaths {va : UInt64} (member : va ∈ firstVas) :
    ∀ level < 2, pathTo va level ∈ firstPaths := by
  intro level bound
  have cases : level = 0 ∨ level = 1 := by omega
  unfold firstPaths
  rw [List.mem_toFinset, List.mem_flatMap]
  refine ⟨va, member, ?_⟩
  rcases cases with rfl | rfl
  · exact List.mem_cons_self
  · exact List.mem_cons_of_mem _ List.mem_cons_self

/-- `proc_make_first` returns. -/
theorem KernelStarted.exists_first
    (started : KernelStarted kernel trampoline free)
    (many : 16 ≤ (kernel.region true).allocable.toNat) (boot : BootData)
    (fits : boot.initcodeLen ≤ pgSize) :
    ∃ final, (procMakeFirst boot).Runs
      ⟨kernel, fun _ => emptyProc, 1, trampoline⟩ () final := by
  -- the trapframe
  rcases exists_alloc started.user.lists (by
    rw [started.user.lists.counted true]
    omega) with ⟨tf, mem₁, allocTf, tfSome, fewer₁⟩
  rcases started.user.alloc_trapframe (.slot procZero) tfSome allocTf with
    ⟨_, free₁, user₁⟩
  -- the page table
  have counted := started.user.lists.counted true
  have counted₁ := user₁.lists.counted true
  rcases exists_alloc user₁.lists (by omega) with
    ⟨pgtbl, mem₂, allocPgtbl, pgtblSome, fewer₂⟩
  rcases UserMem.newRoot (r := .slot procZero) user₁ (formed_none _) rfl
    pgtblSome allocPgtbl with ⟨free₂, user₂, _, _⟩
  have isRoot : Function.update (fun _ : Owner => (0 : UInt64))
      (.slot procZero) pgtbl (.slot procZero) = pgtbl :=
    Function.update_self _ _ _
  have roomy : Roomy (Function.update (fun _ : Owner => 0) (.slot procZero)
      pgtbl) (.slot procZero) firstPaths 3
      (mem₂.setBytes (clearedBytes mem₂.bytes pgtbl)) := by
    refine ⟨⟨free₂, user₂.tables, user₂.lists⟩, ?_⟩
    have card := card_firstPaths
    have subset : (missing (clearedBytes mem₂.bytes pgtbl)
        (Function.update (fun _ : Owner => (0 : UInt64)) (.slot procZero) pgtbl
          (.slot procZero)) firstPaths).card ≤ firstPaths.card :=
      Finset.card_filter_le _ _
    unfold Spare
    change _ + 3 ≤ (mem₂.region true).allocable.toNat
    rw [State.setBytes_bytes]
    omega
  have present : Function.update (fun _ : Owner => (0 : UInt64))
      (.slot procZero) pgtbl (.slot procZero) ≠ 0 := by
    rw [isRoot]
    exact pgtblSome
  have member : ∀ va ∈ firstVas, ∀ level < 2, pathTo va level ∈ firstPaths :=
    fun va inside => mem_firstPaths inside
  rcases roomy.map present (by decide) (by decide)
    (member trampolineVa (by decide)) trampoline (pteR ||| pteX) with
    ⟨mem₃, mapsTrampoline, roomy⟩
  rcases roomy.map present (by decide) (by decide)
    (member trapframeVa (by decide)) tf (pteR ||| pteW) with
    ⟨mem₄, mapsTrapframe, roomy⟩
  -- the stack and the code
  rcases roomy.alloc with ⟨ustackPa1, mem₅, allocated₁, notNull₁, roomy⟩
  rcases roomy.alloc with ⟨ustackPa2, mem₆, allocated₂, notNull₂, roomy⟩
  rcases roomy.map present (by decide) (by decide)
    (member (trapframeVa - 8192) (by decide)) ustackPa1
    (pteR ||| pteW ||| pteU) with ⟨mem₇, maps₁, roomy⟩
  rcases roomy.map present (by decide) (by decide)
    (member (trapframeVa - 8192 + 4096) (by decide)) ustackPa2
    (pteR ||| pteW ||| pteU) with ⟨mem₈, maps₂, roomy⟩
  rcases roomy.alloc with ⟨codePa, mem₉, allocated₃, notNull₃, roomy⟩
  rcases roomy.map present (by decide) (by decide) (member 4096 (by decide))
    codePa (pteR ||| pteW ||| pteX ||| pteU) with ⟨mem₁₀, maps₃, _⟩
  rw [isRoot] at mapsTrampoline mapsTrapframe maps₁ maps₂ maps₃
  have init : (procPgtblInit trampoline tf).Runs mem₁ pgtbl mem₄ := by
    unfold procPgtblInit
    rw [allocPgtbl.bind_iff, if_neg pgtblSome,
      ((clearPage_runs pgtblSome).mpr rfl).bind_iff, mapsTrampoline.bind_iff,
      mapsTrapframe.bind_iff]
    exact Program.runs_pure.mpr ⟨rfl, rfl⟩
  have fills : ∃ mem₁₁, (makeFirstMemory boot pgtbl tf
      (kstackOf boot.cpuid)).Runs mem₄ () mem₁₁ := by
    simp only [makeFirstMemory, Program.runs_bind, Program.runs_assert,
      Program.runs_modify, runs_store, decide_eq_true_eq]
    exact ⟨_, ustackPa1, mem₅, allocated₁, ustackPa2, mem₆, allocated₂, (),
      mem₆, ⟨⟨notNull₁, notNull₂⟩, rfl⟩, (), mem₇, maps₁, (), mem₈, maps₂, (),
      mem₈, ⟨fits, rfl⟩, codePa, mem₉, allocated₃, (), mem₉, ⟨notNull₃, rfl⟩,
      (), mem₁₀, maps₃, (), _, rfl, (), _, rfl, (), _, rfl, (), _, rfl, (), _,
      rfl, (), _, rfl, (), _, rfl, rfl⟩
  rcases fills with ⟨mem₁₁, fills⟩
  have pid : allocPid.Runs ⟨kernel, fun _ => emptyProc, 1, trampoline⟩ 1
      ((State.mk kernel (fun _ => emptyProc) 1 trampoline).setGlobalPid 2) := by
    simp only [allocPid, Program.runs_bind, Program.runs_get,
      Program.runs_assert, Program.runs_modify, Program.runs_pure,
      decide_eq_true_eq]
    exact ⟨_, _, ⟨rfl, rfl⟩, (), _, ⟨Int.one_nonneg, rfl⟩, (), _, rfl, rfl, rfl⟩
  simp only [procMakeFirst, Program.runs_bind, Program.runs_get, runs_onMem,
    Program.runs_assert, runs_modifyProc, decide_eq_true_eq]
  exact ⟨_, _, _, ⟨rfl, rfl⟩, 1, _, pid, tf, _, ⟨mem₁, allocTf, rfl⟩, (), _,
    ⟨tfSome, rfl⟩, pgtbl, _, ⟨mem₄, init, rfl⟩, (), _, ⟨pgtblSome, rfl⟩, (), _,
    ⟨mem₁₁, fills, rfl⟩, rfl⟩

/-- The number of pages of the kernel region after `pmem_init`. -/
theorem allocable_kernel
    {layout : Layout} {mem : Mem.State}
    (managed : Managed layout ⟨mem, fun _ => []⟩) :
    (mem.region true).allocable.toNat = 2048 := by
  rcases managed true with ⟨nodes, manages⟩
  have isPages := manages.complete.length_eq
  have counted := manages.counted
  have bounds := layout.boundary_toNat
  rw [List.append_nil] at isPages
  unfold Layout.pages Layout.count at isPages
  rw [List.length_map, List.length_range] at isPages
  simp only [Layout.start, Layout.stop] at isPages
  change nodes.length = (mem.region true).allocable.toNat at counted
  omega

/-- A machine that has pages for users gets a kernel and a first process,
whatever its memory contains. -/
theorem exists_boot
    (layout : Layout) (someUser : layout.count false ≠ 0)
    (aligned : Aligned trampoline) (low : 0x80000000 ≤ trampoline)
    (below : trampoline < layout.allocBegin) (boot : BootData)
    (fits : boot.initcodeLen ≤ pgSize) (before : Mem.State) :
    ∃ mem kernel final, (pmemInit layout.allocBegin).Runs before () mem ∧
      (kvmInit trampoline).Runs mem () kernel ∧
      StartedWith trampoline kernel ∧
      (procMakeFirst boot).Runs ⟨kernel, fun _ => emptyProc, 1, trampoline⟩ ()
        final := by
  rcases pmemInit_total layout.allocBegin before with ⟨mem, init, _⟩
  have managed := pmemInit_managed layout init
  have count := allocable_kernel managed
  rcases managed_freeLists managed someUser with ⟨free, lists, inRam, _⟩
  have counted := lists.counted true
  rcases @kvmInit_spare mem free 16 lists inRam (by omega) trampoline with
    ⟨pgtbl, held, kernel, free', kvm, table, spare⟩
  have started : StartedWith trampoline kernel :=
    ⟨layout, someUser, aligned, low, below, before, mem, init, kvm⟩
  rcases started.started with ⟨free'', isStarted⟩
  unfold Spare at spare
  rcases isStarted.exists_first (by omega) boot fits with ⟨final, makes⟩
  exact ⟨mem, kernel, final, init, kvm, started, makes⟩

/-- Memory behind the first 128 KiB. -/
def smallLayout : Layout :=
  ⟨0x80020000, by decide, by decide, by decide⟩

theorem someUser_smallLayout : smallLayout.count false ≠ 0 := by
  decide

end Process
end WhuOs
