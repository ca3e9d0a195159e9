import WhuOs.Process.Stacks

/-!
# The address space of the kernel

`kvm_init` maps the devices and memory at their own addresses, the trampoline at
the top, and a stack for each CPU.  The areas that it maps are collected one
after the other, and at the end every address is translated by the area it is
in, and no other address is mapped.
-/

namespace WhuOs
namespace Process

open Library
open Mem
open Program (Runs)

variable {pgtbl trampoline va pa len perm : UInt64} {mem mem' : Mem.State}
  {free free' : Bool → List UInt64} {held : Option Nat → UInt64}

/-! ## Areas -/

/-- Virtual addresses that are mapped to consecutive physical addresses. -/
structure Area where
  start : UInt64
  stop : UInt64
  pa : UInt64
  perm : UInt64

/-- The translation by the area that was mapped last. -/
def mapOf : List Area → UInt64 → Option (UInt64 × UInt64)
  | [], _ => none
  | area :: areas, va =>
      if area.start ≤ va ∧ va < area.stop then
        some (area.pa + (va - area.start), area.perm ||| pteV)
      else
        mapOf areas va

/-- Only the areas are mapped, and the kernel holds some pages. -/
structure KernelMaps (pgtbl : UInt64) (held : Option Nat → UInt64)
    (areas : List Area) (mem : Mem.State) (free : Bool → List UInt64) :
    Prop where
  holds : Holds mem (fun _ : Unit => pgtbl) free held
  isKernel : mem.kernelPgtbl = pgtbl
  present : pgtbl ≠ 0
  tablesRam : ∀ path, path.length ≤ 2 → tableAt mem.bytes pgtbl path ≠ 0 →
    InRam (tableAt mem.bytes pgtbl path)
  translates : ∀ va, translate mem.bytes pgtbl va = mapOf areas va

namespace KernelMaps

variable {areas : List Area}

/-- One more area is mapped. -/
theorem mapped
    (maps : KernelMaps pgtbl held areas mem free) {stop : UInt64} {pages : Nat}
    (range : PageRange va stop pages) (aligned : Aligned pa)
    (flags : perm.toNat < 1024)
    (isMapped : Mapped (fun _ : Unit => pgtbl) () (va.toNat / 4096) pages
      (fun index => leafPte (pa + 4096 * UInt64.ofNat index) perm) mem free
      mem' free') :
    KernelMaps pgtbl held (⟨va, stop, pa, perm⟩ :: areas) mem' free' := by
  refine ⟨maps.holds.grown isMapped.toGrown,
    isMapped.kernelPgtbl.trans maps.isKernel, maps.present, ?_, ?_⟩
  · intro path bound present
    rcases isMapped.placed () path bound with same | ⟨_, fresh⟩
    · rw [same] at present ⊢
      exact maps.tablesRam path bound present
    · exact maps.holds.freeRam true _ fresh
  intro va'
  rw [mapOf]
  split
  · next inside =>
    dsimp only at inside ⊢
    have low := UInt64.le_iff_toNat_le.mp inside.1
    have high := UInt64.lt_iff_toNat_lt.mp inside.2
    have offset := UInt64.toNat_sub_of_le _ _ inside.1
    have ends := range.ends
    have bound : (va' - va).toNat < 4096 * pages := by omega
    have sum : va + (va' - va) = va' := by
      rw [UInt64.add_comm, UInt64.sub_add_cancel]
    have leaf := @leafOf_leafPte va stop pages pa perm (va' - va) range bound
      aligned flags
    have inside' := @Mapped.translate_inside _ (fun _ : Unit => pgtbl) _ _ _ _
      () va stop pages _ range isMapped maps.present _ bound
    rw [sum] at leaf inside'
    exact inside'.trans leaf
  · next outside =>
    rw [← maps.translates va']
    apply @Mapped.translate_outside _ (fun _ : Unit => pgtbl) _ _ _ _ () va' va
      stop pages _ range isMapped maps.holds.tables () maps.present
    rintro ⟨_, inside⟩
    exact outside inside

/-- A call of `vm_mappages` for whole pages. -/
theorem mapRange
    (maps : KernelMaps pgtbl held areas mem free) {pages : Nat}
    (range : PageRange va (va + len) pages) (aligned : Aligned pa)
    (flags : perm.toNat < 1024)
    (run : (vmMappages pgtbl va pa len perm).Runs mem () mem') :
    ∃ free', KernelMaps pgtbl held (⟨va, va + len, pa, perm⟩ :: areas) mem'
      free' := by
  have isRoot : rootOf mem pgtbl = pgtbl := if_neg maps.present
  have fueled : pages ≤ (va + len - va).toNat / pgSize + 1 := by
    have ends := range.ends
    have ordered : va ≤ va + len := by
      rw [UInt64.le_iff_toNat_le]
      omega
    rw [UInt64.toNat_sub_of_le _ _ ordered]
    unfold pgSize
    omega
  rcases @mapLoop_mapped Unit (fun _ => pgtbl) mem mem' free () _ pgtbl va
    (va + len) pa perm pages _ maps.holds.tables maps.holds.lists isRoot
    maps.present range fueled run with ⟨free', isMapped⟩
  exact ⟨free', maps.mapped range aligned flags isMapped⟩

/-- A call of `vm_mappages` for a page, also if it asks for a part of it. -/
theorem mapPart
    (maps : KernelMaps pgtbl held areas mem free)
    (range : PageRange va (va + 4096) 1) (aligned : Aligned pa)
    (flags : perm.toNat < 1024)
    (more : va < va + len) (last : ¬va + 4096 < va + len)
    (run : (vmMappages pgtbl va pa len perm).Runs mem () mem') :
    ∃ free', KernelMaps pgtbl held (⟨va, va + 4096, pa, perm⟩ :: areas) mem'
      free' := by
  have isRoot : rootOf mem pgtbl = pgtbl := if_neg maps.present
  unfold vmMappages at run
  rcases (mapLoop_succ more).mp run with ⟨middle, page, rest⟩
  rcases (mapLoop_none last).mp rest with rfl
  rcases @mapPage_mapped Unit (fun _ => pgtbl) mem middle free () va _
    maps.holds.tables maps.holds.lists pgtbl isRoot maps.present _ page with
    ⟨_, free', isMapped, _⟩
  rw [range.pageOf_start] at isMapped
  refine ⟨free', maps.mapped range aligned flags ⟨isMapped.toGrown, ?_,
    isMapped.outside⟩⟩
  intro index bound va' isPage
  rw [isMapped.inside index bound va' isPage, Nat.lt_one_iff.mp bound]
  simp

/-- The stack of a CPU is mapped to a page of its own. -/
theorem mapStack
    (maps : KernelMaps pgtbl held areas mem free) {cpu : Nat}
    (bound : cpu < nProc)
    (run : (mapStack pgtbl cpu).Runs mem () mem') :
    ∃ page free', page ≠ 0 ∧
      KernelMaps pgtbl (Function.update held (some cpu) page)
        (⟨kstackOf cpu, kstackOf cpu + 4096, page, pteR ||| pteW⟩ :: areas)
        mem' free' := by
  unfold Process.mapStack at run
  simp only [Program.runs_bind, Program.runs_assert] at run
  rcases run with ⟨page, allocated, alloc, _, _, ⟨isSome, rfl⟩, maps'⟩
  have notNull : page ≠ 0 := of_decide_eq_true isSome
  rcases maps.holds.alloc_some (some cpu) notNull alloc with
    ⟨_, aligned, _⟩
  rcases maps.holds.alloc (some cpu) alloc with
    ⟨null, _⟩ | ⟨_, sameBytes, sameKernel, free₁, holds⟩
  · exact absurd null notNull
  have maps₁ : KernelMaps pgtbl (Function.update held (some cpu) page) areas
      allocated free₁ := by
    refine ⟨holds, sameKernel.trans maps.isKernel, maps.present, ?_, ?_⟩
    · rw [sameBytes]
      exact maps.tablesRam
    · rw [sameBytes]
      exact maps.translates
  have range := stackRange bound
  have more : kstackOf cpu < kstackOf cpu + 4096 := range.lt
  rcases maps₁.mapPart range aligned (by decide) more (UInt64.lt_irrefl _) maps'
    with ⟨free', maps₂⟩
  exact ⟨page, free', notNull, maps₂⟩

end KernelMaps

/-! ## `kvm_init` -/

/-- The areas that `kvm_init` maps, the last one first. -/
def kernelAreas (trampoline : UInt64) (stack : Nat → UInt64) : List Area :=
  [⟨kstackOf 1, kstackOf 1 + 4096, stack 1, pteR ||| pteW⟩,
    ⟨kstackOf 0, kstackOf 0 + 4096, stack 0, pteR ||| pteW⟩,
    ⟨vaMax - 4096, vaMax - 4096 + 4096, trampoline, pteR ||| pteX⟩,
    ⟨memStart, memStart + (memEnd - memStart), memStart, kernPerm⟩,
    ⟨virtioBase, virtioBase + 4096, virtioBase, kernPerm⟩,
    ⟨clintBase, clintBase + 0x10000, clintBase, kernPerm⟩,
    ⟨plicBase, plicBase + 0x400000, plicBase, kernPerm⟩,
    ⟨uartBase, uartBase + 4096, uartBase, kernPerm⟩]

/-- The page table before anything is mapped. -/
theorem kernelMaps_empty
    (holds : Holds mem (fun _ : Unit => 0) free held)
    (unheld : held (some 0) = 0) {allocated cleared : Mem.State}
    (alloc : (pmemAlloc true).Runs mem pgtbl allocated)
    (clear : (clearPage pgtbl).Runs (setKernelPgtbl allocated pgtbl) ()
      cleared) :
    ∃ free', KernelMaps pgtbl held [] cleared free' := by
  have notNull : pgtbl ≠ 0 := by
    simp only [clearPage, Program.runs_bind, Program.runs_assert] at clear
    rcases clear with ⟨_, _, ⟨notNull, _⟩, _⟩
    exact of_decide_eq_true notNull
  rcases (clearPage_runs notNull).mp clear with rfl
  rcases holds.alloc (some 0) alloc with
    ⟨null, _⟩ | ⟨_, sameBytes, _, free', holds₁⟩
  · exact absurd null notNull
  have isHeld : Function.update held (some 0) pgtbl (some 0) = pgtbl :=
    Function.update_self _ _ _
  have holds₂ : Holds (setKernelPgtbl allocated pgtbl) (fun _ : Unit => 0)
      free' (Function.update held (some 0) pgtbl) :=
    ⟨⟨holds₁.lists.linked, holds₁.lists.counted, holds₁.lists.nodup,
      holds₁.lists.unique, holds₁.lists.aligned⟩, holds₁.tables,
      holds₁.freeRam, holds₁.inRam, holds₁.notFree, holds₁.notTable,
      holds₁.unique⟩
  have isSome : Function.update held (some 0) pgtbl (some 0) ≠ 0 := by
    rw [isHeld]
    exact notNull
  have inRam := holds₂.inRam (some 0) isSome
  have changed : ChangedIn (Function.update held (some 0) pgtbl (some 0))
      allocated.bytes (clearedBytes allocated.bytes pgtbl) := by
    rw [isHeld]
    exact changedIn_cleared _ _
  have empty : ∀ index,
      entryOf (clearedBytes allocated.bytes pgtbl) pgtbl index = 0 :=
    entryOf_cleared _ _
  have holds₃ := (holds₂.write isSome changed).addRoot isSome
    (by rw [isHeld]; exact empty) ()
  have roots : Function.update (fun _ : Unit => (0 : UInt64)) () pgtbl =
      fun _ => pgtbl := by
    funext
    exact Function.update_self _ _ _
  have kept : Function.update held (some 0) 0 = held := by
    rw [← unheld]
    exact Function.update_eq_self _ _
  rw [isHeld, Function.update_idem, roots, kept] at holds₃
  rw [isHeld] at inRam
  refine ⟨free', holds₃, rfl, notNull, ?_, ?_⟩
  · intro path _ present
    have place := @Holds.tableAt_addRoot Unit (fun _ => 0) _ () _ _ notNull
      empty () path
    rw [Function.update_self, if_pos rfl] at place
    change tableAt (clearedBytes allocated.bytes pgtbl) pgtbl path ≠ 0 at present
    change InRam (tableAt (clearedBytes allocated.bytes pgtbl) pgtbl path)
    rw [place] at present ⊢
    split at present
    · next isRoot =>
      rw [if_pos isRoot]
      exact inRam
    · exact absurd rfl present
  · intro va
    have absent := pteAt_empty empty va
    have walk := @translate_eq _ (fun _ : Unit => pgtbl) _ _ () holds₃.tables
      notNull va
    rw [State.setBytes_bytes, absent] at walk
    exact walk.trans (ite_self none)

/-- Memory without page tables in which nobody has a page. -/
theorem holds_none
    (lists : FreeLists mem free)
    (inRam : ∀ inKernel, ∀ page ∈ free inKernel, InRam page) :
    Holds mem (fun _ : Unit => 0) free (fun _ : Option Nat => 0) :=
  ⟨lists, tables_none mem.bytes free, inRam, fun _ some => absurd rfl some,
    fun _ some => absurd rfl some, fun _ some => absurd rfl some,
    fun _ _ some => absurd rfl some⟩

/-- `kvm_init` maps its areas and nothing else. -/
theorem kvmInit_maps
    (holds : Holds mem (fun _ : Unit => 0) free held)
    (unheld : held (some 0) = 0) (aligned : Aligned trampoline)
    {kernel : Mem.State} (run : (kvmInit trampoline).Runs mem () kernel) :
    ∃ pgtbl held' free', held' (some 0) ≠ 0 ∧ held' (some 1) ≠ 0 ∧
      held' none = held none ∧ KernelMaps pgtbl held'
        (kernelAreas trampoline fun cpu => held' (some cpu)) kernel free' := by
  unfold kvmInit at run
  simp only [Program.runs_bind, Program.runs_modify] at run
  rcases run with ⟨pgtbl, allocated, alloc, _, _, rfl, _, cleared, clear, _,
    mem₁, uart, _, mem₂, plic, _, mem₃, clint, _, mem₄, virtio, _, mem₅, ram,
    _, mem₆, code, stackRuns⟩
  have plicRange : PageRange plicBase (plicBase + 0x400000) 1024 :=
    ⟨by decide, by decide, by decide⟩
  have clintRange : PageRange clintBase (clintBase + 0x10000) 16 :=
    ⟨by decide, by decide, by decide⟩
  have ramRange : PageRange memStart (memStart + (memEnd - memStart)) 32768 :=
    ⟨by decide, by decide, by decide⟩
  rcases kernelMaps_empty holds unheld alloc clear with ⟨_, maps⟩
  rcases maps.mapPart ⟨by decide, by decide, by decide⟩ (by decide) (by decide)
    (by decide) (by decide) uart with ⟨_, maps⟩
  rcases maps.mapRange plicRange (by decide) (by decide) plic with ⟨_, maps⟩
  rcases maps.mapRange clintRange (by decide) (by decide) clint with ⟨_, maps⟩
  rcases maps.mapPart ⟨by decide, by decide, by decide⟩ (by decide) (by decide)
    (by decide) (by decide) virtio with ⟨_, maps⟩
  rcases maps.mapRange ramRange (by decide) (by decide) ram with ⟨_, maps⟩
  rcases maps.mapPart ⟨by decide, by decide, by decide⟩ aligned (by decide)
    (by decide) (by decide) code with ⟨_, maps⟩
  have twice : (mapStack pgtbl 0 >>= fun _ => mapStack pgtbl 1 >>= fun _ =>
      pure PUnit.unit).Runs mem₆ () kernel := stackRuns
  simp only [Program.runs_bind, Program.runs_pure] at twice
  rcases twice with ⟨_, mem₇, first, _, mem₈, second, _, rfl⟩
  rcases maps.mapStack (by decide) first with ⟨page, _, isPage, maps⟩
  rcases maps.mapStack (by decide) second with ⟨page', free', isPage', maps⟩
  exact ⟨pgtbl, Function.update (Function.update held (some 0) page) (some 1)
    page', free', isPage, isPage', rfl, maps⟩

/-! ## The finished address space -/

/-- Memory after `pmem_init` and `kvm_init` with the code of the trampoline at
`trampoline`, on a machine that has pages for users. -/
def BuiltWith (trampoline : UInt64) (kernel : Mem.State) : Prop :=
  ∃ layout : Layout, layout.count false ≠ 0 ∧ ∃ before mem,
    (pmemInit layout.allocBegin).Runs before () mem ∧
    (kvmInit trampoline).Runs mem () kernel

/-- A translation is that of an area. -/
theorem mem_of_mapOf
    {areas : List Area} {flags : UInt64}
    (found : mapOf areas va = some (pa, flags)) :
    ∃ area ∈ areas, flags = area.perm ||| pteV ∧ area.start ≤ va ∧
      va < area.stop := by
  induction areas with
  | nil => cases found
  | cons area areas inductionHypothesis =>
      rw [mapOf] at found
      split at found
      · next inside =>
        cases found
        exact ⟨area, List.mem_cons_self, rfl, inside⟩
      · rcases inductionHypothesis found with ⟨other, member, holds⟩
        exact ⟨other, List.mem_cons_of_mem area member, holds⟩

/-- Outside of all areas nothing is mapped. -/
theorem mapOf_eq_none
    {areas : List Area}
    (outside : ∀ area ∈ areas, ¬(area.start ≤ va ∧ va < area.stop)) :
    mapOf areas va = none := by
  cases found : mapOf areas va with
  | none => rfl
  | some result =>
      rcases mem_of_mapOf (show mapOf areas va = some (result.1, result.2) from
        found) with ⟨area, member, _, inside⟩
      exact absurd inside (outside area member)

/-- Areas are below the end of memory, the stack of a CPU, or at the top. -/
theorem kernelAreas_place
    {stack : Nat → UInt64} {area : Area}
    (member : area ∈ kernelAreas trampoline stack) :
    area.stop.toNat ≤ memEnd.toNat ∨
      (∃ cpu < nCpu, area.start = kstackOf cpu ∧
        area.stop = kstackOf cpu + 4096) ∨
      area.start = vaMax - 4096 := by
  simp only [kernelAreas, List.mem_cons, List.not_mem_nil, or_false] at member
  rcases member with rfl | rfl | rfl | rfl | rfl | rfl | rfl | rfl
  · exact Or.inr (Or.inl ⟨1, by decide, rfl, rfl⟩)
  · exact Or.inr (Or.inl ⟨0, by decide, rfl, rfl⟩)
  · exact Or.inr (Or.inr rfl)
  all_goals exact Or.inl (by decide)

/-- The page below a stack is in no area. -/
theorem guard_outside
    {stack : Nat → UInt64} {cpu : Nat} (bound : cpu < nCpu) {offset : UInt64}
    (inside : offset < 4096) :
    mapOf (kernelAreas trampoline stack) (kstackOf cpu - 4096 + offset) =
      none := by
  have count : nCpu = 2 := rfl
  have size : nProc = 64 := rfl
  have page : (4096 : UInt64).toNat = 4096 := rfl
  have address := kstackOf_toNat (show cpu < nProc by omega)
  have small := UInt64.lt_iff_toNat_lt.mp inside
  have guard : (kstackOf cpu - 4096 + offset).toNat =
      0x3f80000000 + (cpu + 1) * 8192 - 4096 + offset.toNat := by
    have le : (4096 : UInt64) ≤ kstackOf cpu := by
      rw [UInt64.le_iff_toNat_le, page]
      omega
    rw [UInt64.toNat_add, UInt64.toNat_sub_of_le _ _ le, address, page]
    omega
  apply mapOf_eq_none
  intro area member
  rw [UInt64.le_iff_toNat_le, UInt64.lt_iff_toNat_lt, guard]
  rcases kernelAreas_place member with below | ⟨other, bound', start, stop⟩ | top
  · have last : memEnd.toNat = 0x88000000 := rfl
    omega
  · have address' := kstackOf_toNat (show other < nProc by omega)
    rw [start, stop, UInt64.toNat_add, address', page]
    omega
  · have last : (vaMax - 4096).toNat = 0x3ffffff000 := rfl
    rw [top, last]
    omega

/-- No area is for users. -/
theorem kernelAreas_notUser
    {stack : Nat → UInt64} {area : Area}
    (member : area ∈ kernelAreas trampoline stack) :
    (area.perm ||| pteV) &&& pteU = 0 := by
  simp only [kernelAreas, List.mem_cons, List.not_mem_nil, or_false] at member
  rcases member with rfl | rfl | rfl | rfl | rfl | rfl | rfl | rfl
  all_goals
    dsimp only
    decide

/-- A machine that was just started. -/
theorem exists_builtWith (trampoline : UInt64) :
    ∃ kernel, BuiltWith trampoline kernel := by
  have user : firstLayout.count false ≠ 0 := by
    have bounds := firstLayout.boundary_toNat
    have pages : kernelPages * pgSize = 8388608 := rfl
    have last : allocEnd.toNat = 2281701376 := rfl
    have isStart : firstLayout.allocBegin.toNat = 0x80000000 := rfl
    unfold Layout.count
    simp only [Layout.start, Layout.stop]
    omega
  rcases pmemInit_total firstLayout.allocBegin emptyState with ⟨mem, init, _⟩
  rcases managed_freeLists (pmemInit_managed firstLayout init) user with
    ⟨free, lists, inRam, many⟩
  rcases kvmInit_runs lists inRam many trampoline with ⟨_, _, kernel, _, kvm, _⟩
  exact ⟨kernel, firstLayout, user, emptyState, mem, init, kvm⟩

/-- Every address of the kernel is translated by the area it is in, and the
stacks of the CPUs are different pages of memory.  Users have access to none of
it, and below each stack a page is not mapped. -/
theorem kernel_addressSpace
    {kernel : Mem.State} (built : BuiltWith trampoline kernel)
    (aligned : Aligned trampoline) :
    ∃ stack : Nat → UInt64,
      (∀ va, translate kernel.bytes kernel.kernelPgtbl va =
        mapOf (kernelAreas trampoline stack) va) ∧
      (∀ cpu < nCpu, InRam (stack cpu)) ∧ stack 0 ≠ stack 1 ∧
      (∀ va pa flags, translate kernel.bytes kernel.kernelPgtbl va =
        some (pa, flags) → flags &&& pteU = 0) ∧
      ∀ cpu < nCpu, ∀ offset < 4096,
        translate kernel.bytes kernel.kernelPgtbl
          (kstackOf cpu - 4096 + offset) = none := by
  rcases built with ⟨layout, someUser, before, mem, init, kvm⟩
  rcases managed_freeLists (pmemInit_managed layout init) someUser with
    ⟨free, lists, inRam, _⟩
  rcases kvmInit_maps (holds_none lists inRam) rfl aligned kvm with
    ⟨pgtbl, held, free', first, second, _, maps⟩
  have translates : ∀ va, translate kernel.bytes kernel.kernelPgtbl va =
      mapOf (kernelAreas trampoline fun cpu => held (some cpu)) va := by
    intro va
    rw [maps.isKernel]
    exact maps.translates va
  refine ⟨fun cpu => held (some cpu), translates, ?_, ?_, ?_, ?_⟩
  · intro cpu bound
    apply maps.holds.inRam
    interval_cases cpu
    · exact first
    · exact second
  · intro same
    exact absurd (maps.holds.unique _ _ first same) (by decide)
  · intro va pa flags found
    rw [translates va] at found
    rcases mem_of_mapOf found with ⟨area, member, rfl, _⟩
    exact kernelAreas_notUser member
  · intro cpu bound offset inside
    rw [translates]
    exact guard_outside bound inside

/-- The kernel of a machine reaches the first device register at its own
address. -/
theorem kernel_addressSpace_uart :
    ∃ kernel : Mem.State, translate kernel.bytes kernel.kernelPgtbl uartBase =
      some (uartBase, kernPerm ||| pteV) := by
  rcases exists_builtWith 0x80005000 with ⟨kernel, built⟩
  rcases kernel_addressSpace built (by decide) with ⟨stack, translates, _⟩
  exact ⟨kernel, (translates uartBase).trans rfl⟩

end Process
end WhuOs
