import WhuOs.Process.NewSpaces

/-!
# The start of the kernel

`kvm_init` leaves pages that the kernel keeps: the tables of its page table, the
stacks of the CPUs and the code of the trampoline.  `proc_make_first` makes the
first address space beside them.
-/

namespace WhuOs
namespace Process

open Library
open Library.Bytes
open Mem
open Program (Preserves Runs)

variable {kernel : Mem.State} {trampoline : UInt64}
  {free : Bool → List UInt64}

/-! ## The page table of the kernel -/

/-- Translations depend on the tables only. -/
theorem translate_of_unchanged
    {mem mem' : Mem.State} {pgtbl : UInt64}
    (tables : Tables mem.bytes (fun _ : Unit => pgtbl) free)
    (present : pgtbl ≠ 0)
    (unchanged : ∀ path, path.length ≤ 2 →
      tableAt mem.bytes pgtbl path ≠ 0 →
      Unchanged (tableAt mem.bytes pgtbl path) mem.bytes mem'.bytes)
    (va : UInt64) :
    translate mem'.bytes pgtbl va = translate mem.bytes pgtbl va := by
  have kept : ∀ (_ : Unit) path index, path.length < 2 →
      tableAt mem.bytes pgtbl path ≠ 0 →
      entryOf mem'.bytes (tableAt mem.bytes pgtbl path) index =
        entryOf mem.bytes (tableAt mem.bytes pgtbl path) index :=
    fun _ path index short notNull =>
      (unchanged path (Nat.le_of_lt short) notNull).entryOf index
  have tables' : Tables mem'.bytes (fun _ : Unit => pgtbl) free :=
    tables.of_kept kept fun _ _ taken _ => taken
  have pte : pteAt mem'.bytes pgtbl va = pteAt mem.bytes pgtbl va := by
    have short : (pathTo va 0).length ≤ 2 := Nat.le_refl 2
    unfold pteAt
    rw [tableAt_of_kept kept () (pathTo va 0) short]
    split
    · rfl
    · next notNull =>
      exact (unchanged (pathTo va 0) short notNull).entryOf (vpn va 0)
  have walk := @translate_eq _ (fun _ : Unit => pgtbl) _ _ () tables present va
  have walk' := @translate_eq _ (fun _ : Unit => pgtbl) _ _ () tables' present
    va
  rw [walk, walk', pte]

/-- A table of the page table of the kernel. -/
def IsKernelTable (kernel : Mem.State) (page : UInt64) : Prop :=
  page ≠ 0 ∧ ∃ path, path.length ≤ 2 ∧
    tableAt kernel.bytes kernel.kernelPgtbl path = page

/-- The stack of a CPU, where the page table of the kernel has it. -/
def IsStack (mem : Mem.State) (page : UInt64) : Prop :=
  ∃ cpu < nCpu, ∃ flags,
    translate mem.bytes mem.kernelPgtbl (kstackOf cpu) = some (page, flags)

/-- What the kernel keeps: its tables and the trampoline, which do not change,
and the stacks of the CPUs. -/
def kernelPart (kernel : Mem.State) (trampoline : UInt64) : KernelPart where
  boot := kernel
  owned page := IsKernelTable kernel page ∨ page = trampoline ∨
    IsStack kernel page
  fixed page := IsKernelTable kernel page ∨ page = trampoline
  owned_of_fixed := by
    rintro page (isTable | isTrampoline)
    · exact Or.inl isTable
    · exact Or.inr (Or.inl isTrampoline)

open Classical in
/-- The holders when only the kernel has pages. -/
noncomputable def bootHeld (part : KernelPart) : Holder Owner → UInt64
  | .trapframe (.kernel page) => if part.owned page then page else 0
  | _ => 0

/-- Memory after `pmem_init` and `kvm_init`, on a machine that has pages for
users, with the trampoline in a page of the code of the kernel. -/
def StartedWith (trampoline : UInt64) (kernel : Mem.State) : Prop :=
  ∃ layout : Layout, layout.count false ≠ 0 ∧ Aligned trampoline ∧
    0x80000000 ≤ trampoline ∧ trampoline < layout.allocBegin ∧
    ∃ before mem, (pmemInit layout.allocBegin).Runs before () mem ∧
      (kvmInit trampoline).Runs mem () kernel

/-- The kernel has its pages, its page table is complete, and nobody else has
pages yet. -/
structure KernelStarted (kernel : Mem.State) (trampoline : UInt64)
    (free : Bool → List UInt64) : Prop where
  tables : Tables kernel.bytes (fun _ : Unit => kernel.kernelPgtbl) free
  present : kernel.kernelPgtbl ≠ 0
  notFixed : ∀ page, IsStack kernel page →
    ¬(kernelPart kernel trampoline).fixed page
  ownedRam : ∀ page, (kernelPart kernel trampoline).owned page → InRam page
  user : UserMem kernel (fun _ => 0) free
    (bootHeld (kernelPart kernel trampoline))
  areas : ∃ stack : Nat → UInt64, ∀ va,
    translate kernel.bytes kernel.kernelPgtbl va =
      mapOf (kernelAreas trampoline stack) va

/-- The holders of the pages of the kernel. -/
theorem bootHeld_some
    {part : KernelPart} {holder : Holder Owner}
    (some : bootHeld part holder ≠ 0) :
    ∃ page, holder = .trapframe (.kernel page) ∧ part.owned page ∧
      bootHeld part holder = page := by
  cases holder with
  | user owner page => exact absurd rfl some
  | scratch => exact absurd rfl some
  | trapframe owner =>
      cases owner with
      | slot slot => exact absurd rfl some
      | kernel page =>
          by_cases owned : part.owned page
          · exact ⟨page, rfl, owned, if_pos owned⟩
          · exact absurd (if_neg owned) some

theorem bootHeld_owned
    {part : KernelPart} {page : UInt64} (owned : part.owned page) :
    bootHeld part (.trapframe (.kernel page)) = page :=
  if_pos owned

/-- Memory in which only the kernel has pages. -/
theorem userMem_bootHeld
    {part : KernelPart} {mem : Mem.State} (lists : FreeLists mem free)
    (freeRam : ∀ inKernel, ∀ page ∈ free inKernel, InRam page)
    (owned : ∀ page, part.owned page →
      InRam page ∧ ∀ inKernel, page ∉ free inKernel) :
    UserMem mem (fun _ => 0) free (bootHeld part) := by
  refine ⟨⟨lists, tables_none mem.bytes free, freeRam, ?_, ?_, ?_, ?_⟩, ?_,
    rfl⟩
  · intro holder some
    rcases bootHeld_some some with ⟨page, _, isOwned, isPage⟩
    rw [isPage]
    exact (owned page isOwned).1
  · intro holder some
    rcases bootHeld_some some with ⟨page, _, isOwned, isPage⟩
    rw [isPage]
    exact (owned page isOwned).2
  · intro holder some _ path _ same
    rw [← same] at some
    exact some (Forest.value_null path)
  · intro holder holder' some same
    have some' := some
    rw [same] at some'
    rcases bootHeld_some some with ⟨page, isHolder, _, isPage⟩
    rcases bootHeld_some some' with ⟨page', isHolder', _, isPage'⟩
    rw [isPage, isPage'] at same
    rw [isHolder, isHolder', same]
  · intro owner va _
    rw [pteAt_null]
    exact ⟨rfl, nofun⟩

/-- The pages that `pmem_init` manages are behind the kernel. -/
theorem free_above
    {layout : Layout} {mem : Mem.State} {free : Bool → List UInt64}
    (managed : Managed layout ⟨mem, fun _ => []⟩)
    (some : layout.count false ≠ 0) (lists : FreeLists mem free)
    {inKernel : Bool} {page : UInt64} (member : page ∈ free inKernel) :
    layout.allocBegin ≤ page := by
  have count : layout.count inKernel ≠ 0 := by
    cases inKernel with
    | true =>
        have bounds := layout.boundary_toNat
        unfold Layout.count
        simp only [Layout.start, Layout.stop]
        omega
    | false => exact some
  rcases managed inKernel with ⟨nodes, manages⟩
  have same := (manages.linked count).eq_of_linked (lists.linked inKernel)
  rw [← same] at member
  have inPages := manages.mem_pages.mpr (Or.inl member)
  have above := (layout.mem_pages.mp inPages).2.1
  have bounds := layout.boundary_toNat
  rw [UInt64.le_iff_toNat_le] at above ⊢
  cases inKernel with
  | true => exact above
  | false =>
      simp only [Layout.start] at above
      omega

/-- The page of a stack. -/
theorem mapOf_stack
    (trampoline : UInt64) (stack : Nat → UInt64) {cpu : Nat} (bound : cpu < nCpu)
    {offset : UInt64} (inside : offset.toNat < 4096) :
    mapOf (kernelAreas trampoline stack) (kstackOf cpu + offset) =
      some (stack cpu + offset, pteR ||| pteW ||| pteV) := by
  have first : (kstackOf 0).toNat = 0x3f80002000 := rfl
  have second : (kstackOf 1).toNat = 0x3f80004000 := rfl
  have size : (4096 : UInt64).toNat = 4096 := rfl
  have count : nCpu = 2 := rfl
  have same : ∀ cpu, stack cpu + (kstackOf cpu + offset - kstackOf cpu) =
      stack cpu + offset := by
    intro cpu
    rw [UInt64.add_comm (kstackOf cpu), UInt64.add_sub_cancel]
  rcases (show cpu = 0 ∨ cpu = 1 by omega) with rfl | rfl
  · have address : (kstackOf 0 + offset).toNat = 0x3f80002000 + offset.toNat := by
      rw [UInt64.toNat_add, first]
      omega
    have stop : (kstackOf 0 + 4096).toNat = 0x3f80003000 := rfl
    have off : ¬(kstackOf 1 ≤ kstackOf 0 + offset ∧
        kstackOf 0 + offset < kstackOf 1 + 4096) := by
      rw [UInt64.le_iff_toNat_le, address, second]
      omega
    have on : kstackOf 0 ≤ kstackOf 0 + offset ∧
        kstackOf 0 + offset < kstackOf 0 + 4096 := by
      rw [UInt64.le_iff_toNat_le, UInt64.lt_iff_toNat_lt, address, first, stop]
      omega
    refine ((if_neg off).trans (if_pos on)).trans ?_
    rw [same]
  · have address : (kstackOf 1 + offset).toNat = 0x3f80004000 + offset.toNat := by
      rw [UInt64.toNat_add, second]
      omega
    have stop : (kstackOf 1 + 4096).toNat = 0x3f80005000 := rfl
    have on : kstackOf 1 ≤ kstackOf 1 + offset ∧
        kstackOf 1 + offset < kstackOf 1 + 4096 := by
      rw [UInt64.le_iff_toNat_le, UInt64.lt_iff_toNat_lt, address, second, stop]
      omega
    refine (if_pos on).trans ?_
    rw [same]

theorem mapOf_kstack
    (stack : Nat → UInt64) {cpu : Nat} (bound : cpu < nCpu) :
    mapOf (kernelAreas trampoline stack) (kstackOf cpu) =
      some (stack cpu, pteR ||| pteW ||| pteV) := by
  have found := @mapOf_stack trampoline stack cpu bound 0 (by decide)
  rw [UInt64.add_zero, UInt64.add_zero] at found
  exact found

/-- Before `kvm_init` a page of the code and the data of the kernel is held by
nobody else. -/
theorem holds_behind
    {layout : Layout} {before mem : Mem.State}
    (init : (pmemInit layout.allocBegin).Runs before () mem)
    (someUser : layout.count false ≠ 0) {page : UInt64} (inRam : InRam page)
    (below : page < layout.allocBegin) :
    ∃ free, Holds mem (fun _ : Unit => 0) free
      (Function.update (fun _ : Option Nat => 0) none page) := by
  have managed := pmemInit_managed layout init
  rcases managed_freeLists managed someUser with ⟨free, lists, freeRam, _⟩
  have only : ∀ holder, Function.update (fun _ : Option Nat => (0 : UInt64))
      none page holder ≠ 0 → holder = none := by
    intro holder some
    by_contra differs
    exact some (Function.update_of_ne differs _ _)
  refine ⟨free, lists, tables_none mem.bytes free, freeRam, ?_, ?_, ?_, ?_⟩
  · intro holder some
    rw [only holder some, Function.update_self]
    exact inRam
  · intro holder some inKernel member
    rw [only holder some, Function.update_self] at member
    have above := free_above managed someUser lists member
    exact absurd below (UInt64.not_lt.mpr above)
  · intro holder some _ path _ same
    rw [← same] at some
    exact some (Forest.value_null path)
  · intro holder holder' some same
    have some' := some
    rw [same] at some'
    rw [only holder some, only holder' some']

/-- The tables of the kernel are behind its code and its data. -/
theorem kernelTable_behind
    {layout : Layout} {before mem : Mem.State}
    (init : (pmemInit layout.allocBegin).Runs before () mem)
    (someUser : layout.count false ≠ 0) (aligned : Aligned trampoline)
    (kvm : (kvmInit trampoline).Runs mem () kernel) {page : UInt64}
    (isTable : IsKernelTable kernel page) (inRam : InRam page) :
    layout.allocBegin ≤ page := by
  rcases isTable with ⟨notNull, path, bound, rfl⟩
  by_contra isBelow
  rcases holds_behind init someUser inRam (UInt64.not_le.mp isBelow) with
    ⟨free, holds⟩
  rcases kvmInit_maps holds rfl aligned kvm with
    ⟨pgtbl, held, free', _, _, kept, holds', rfl, _⟩
  have isHeld : held none =
      tableAt kernel.bytes kernel.kernelPgtbl path :=
    kept.trans (Function.update_self _ _ _)
  have some : held none ≠ 0 := by
    rw [isHeld]
    exact notNull
  exact holds'.notTable none some () path bound isHeld.symm

/-- The kernel keeps its tables, its stacks and the trampoline. -/
theorem StartedWith.started (started : StartedWith trampoline kernel) :
    ∃ free, KernelStarted kernel trampoline free := by
  rcases started with ⟨layout, someUser, aligned, low, below, before, mem, init,
    kvm⟩
  have trampolineRam : InRam trampoline := by
    have room := layout.room
    have endNat : allocEnd.toNat = 0x88000000 := rfl
    have belowNat := UInt64.lt_iff_toNat_lt.mp below
    exact ⟨aligned, UInt64.le_iff_toNat_le.mp low, by omega⟩
  rcases holds_behind init someUser trampolineRam below with ⟨free, holds⟩
  rcases kvmInit_maps holds rfl aligned kvm with
    ⟨pgtbl, held, free', first, second, atTrampoline, maps⟩
  have isTrampoline : held none = trampoline :=
    atTrampoline.trans (Function.update_self _ _ _)
  rcases maps with ⟨holds', rfl, present, tablesRam, translates⟩
  have stackHeld : ∀ page, IsStack kernel page →
      ∃ cpu, held (some cpu) ≠ 0 ∧ page = held (some cpu) := by
    rintro page ⟨cpu, bound, flags, found⟩
    rw [translates, mapOf_kstack _ bound] at found
    refine ⟨cpu, ?_, (congrArg Prod.fst (Option.some.inj found)).symm⟩
    interval_cases cpu
    · exact first
    · exact second
  have owned : ∀ page, (kernelPart kernel trampoline).owned page →
      InRam page ∧ ∀ inKernel, page ∉ free' inKernel := by
    rintro page (⟨notNull, path, bound, rfl⟩ | rfl | isStack)
    · exact ⟨tablesRam path bound notNull,
        (@Tables.taken_tableAt _ _ _ _ holds'.tables () path bound
          notNull).notFree⟩
    · have some : held none ≠ 0 := by
        rw [isTrampoline]
        exact trampolineRam.ne_zero
      have notFree := holds'.notFree none some
      rw [isTrampoline] at notFree
      exact ⟨trampolineRam, notFree⟩
    · rcases stackHeld page isStack with ⟨cpu, some, rfl⟩
      exact ⟨holds'.inRam _ some, holds'.notFree _ some⟩
  refine ⟨free', holds'.tables, present, ?_, fun page isOwned =>
    (owned page isOwned).1,
    userMem_bootHeld holds'.lists holds'.freeRam owned, _, translates⟩
  intro page isStack isFixed
  rcases stackHeld page isStack with ⟨cpu, some, rfl⟩
  rcases isFixed with ⟨_, path, bound, isTable⟩ | same
  · exact holds'.notTable _ some () path bound isTable
  · rw [← isTrampoline] at same
    exact absurd (holds'.unique _ _ some same) nofun

/-! ## The first process -/

/-- An address space is filled with pages while the pages of the kernel stay
what they are.  A page may be allocated before it is mapped. -/
structure Filling (part : KernelPart) (root : Owner → UInt64) (r : Owner)
    (gate : Nat → UInt64) (mem : Mem.State) (free : Bool → List UInt64)
    (held : Holder Owner → UInt64) : Prop where
  holds : Holds mem root free held
  formed : Formed mem.bytes root
  kernelHeld : ∀ page, part.owned page →
    page ≠ 0 ∧ held (.trapframe (.kernel page)) = page
  kernelPgtbl : mem.kernelPgtbl = part.boot.kernelPgtbl
  intact : ∀ page, part.fixed page → Unchanged page part.boot.bytes mem.bytes
  gates : ∀ va, userPages ≤ pageOf va →
    pteAt mem.bytes (root r) va = gate (pageOf va)

namespace Filling

variable {part : KernelPart} {root : Owner → UInt64} {r : Owner}
  {gate : Nat → UInt64} {mem mem' : Mem.State}
  {held : Holder Owner → UInt64}

theorem kernel_some
    (filling : Filling part root r gate mem free held) {page : UInt64}
    (owned : part.owned page) : held (.trapframe (.kernel page)) ≠ 0 := by
  rcases filling.kernelHeld page owned with ⟨notNull, isHeld⟩
  rw [isHeld]
  exact notNull

/-- A page is allocated. -/
theorem alloc
    (filling : Filling part root r gate mem free held) {holder : Holder Owner}
    (notKernel : ∀ page, Holder.trapframe (.kernel page) ≠ holder)
    {inKernel : Bool} {page : UInt64} (notNull : page ≠ 0)
    (run : (pmemAlloc inKernel).Runs mem page mem') :
    ∃ free', Filling part root r gate mem' free'
      (Function.update held holder page) := by
  rcases filling.holds.alloc_some holder notNull run with
    ⟨sameBytes, _, free', holds⟩
  have formed := filling.formed
  have intact := filling.intact
  have gates := filling.gates
  have sameKernel := (stable_kernelPgtbl part.boot.kernelPgtbl).alloc inKernel
    filling.kernelPgtbl run
  rw [← sameBytes] at formed intact gates
  refine ⟨free', holds, formed, ?_, sameKernel, intact, gates⟩
  intro page' owned
  rw [Function.update_of_ne (notKernel page')]
  exact filling.kernelHeld page' owned

/-- A user page is mapped. -/
theorem mapPage
    (filling : Filling part root r gate mem free held) (present : root r ≠ 0)
    {va pa perm : UInt64} (aligned : Aligned va)
    (low : va.toNat + 4096 ≤ 2 ^ 38) (isUser : pageOf va < userPages)
    (small : perm.toNat < 1024) (flags : UserFlags (perm ||| pteV))
    (run : (vmMappages (root r) va pa 4096 perm).Runs mem () mem') :
    ∃ free', Filling part root r gate mem' free' held := by
  rcases vmMappages_page filling.holds.tables filling.holds.lists present
    aligned low run with ⟨free', mapped⟩
  refine ⟨free', filling.holds.grown mapped.toGrown,
    filling.formed.mapped (filling.holds.freeRam true) mapped
      (fun _ _ => userFlags_leafPte pa small flags),
    filling.kernelHeld, mapped.kernelPgtbl.trans filling.kernelPgtbl, ?_, ?_⟩
  · intro page isFixed
    have owned := part.owned_of_fixed page isFixed
    have kept := filling.holds.unchanged_grown mapped.toGrown
      (filling.kernel_some owned)
    rw [(filling.kernelHeld page owned).2] at kept
    exact (filling.intact page isFixed).trans kept
  · intro va' isHigh
    rw [mapped.outside r va' fun inside => by omega]
    exact filling.gates va' isHigh

/-- A page is written to. -/
theorem write
    (filling : Filling part root r gate mem free held) {holder : Holder Owner}
    (some : held holder ≠ 0)
    (notKernel : ∀ page, Holder.trapframe (.kernel page) ≠ holder)
    {bytes : Bytes} (changed : ChangedIn (held holder) mem.bytes bytes) :
    Filling part root r gate (mem.setBytes bytes) free held := by
  refine ⟨filling.holds.write some changed,
    filling.formed.write filling.holds some changed, filling.kernelHeld,
    filling.kernelPgtbl, ?_, ?_⟩
  · intro page isFixed
    have owned := part.owned_of_fixed page isFixed
    have kept := filling.holds.unchanged_write some
      (filling.kernel_some owned) (notKernel page) changed
    rw [(filling.kernelHeld page owned).2] at kept
    exact (filling.intact page isFixed).trans kept
  · intro va isHigh
    exact (filling.holds.pteAt_write some changed r va).trans
      (filling.gates va isHigh)

/-- A word of a page is stored. -/
theorem store
    (filling : Filling part root r gate mem free held) {holder : Holder Owner}
    (some : held holder ≠ 0)
    (notKernel : ∀ page, Holder.trapframe (.kernel page) ≠ holder)
    {offset value : UInt64} (bound : offset.toNat + 8 ≤ 4096)
    (run : (store (held holder + offset) value).Runs mem () mem') :
    Filling part root r gate mem' free held := by
  have room := (filling.holds.taken some).aligned.room
  have address : (held holder + offset).toNat =
      (held holder).toNat + offset.toNat := by
    rw [UInt64.toNat_add]
    omega
  rcases runs_store.mp run with rfl
  exact filling.write some notKernel
    (changedIn_memmove (by omega) (by omega))

/-- The code, the stack and the trapframe of the first process. -/
theorem makeFirstMemory
    {slot : Pid} (filling : Filling part root (.slot slot) gate mem free held)
    (present : root (.slot slot) ≠ 0)
    (some : held (.trapframe (.slot slot)) ≠ 0) {boot : BootData}
    {kstack : UInt64}
    (run : (makeFirstMemory boot (root (.slot slot))
      (held (.trapframe (.slot slot))) kstack).Runs mem () mem') :
    ∃ free' held', Filling part root (.slot slot) gate mem' free' held' := by
  simp only [Process.makeFirstMemory, Program.runs_bind, Program.runs_assert,
    Program.runs_modify, decide_eq_true_eq] at run
  rcases run with ⟨ustackPa1, mem₁, allocated₁, ustackPa2, mem₂, allocated₂, _,
    _, ⟨⟨notNull₁, notNull₂⟩, rfl⟩, _, mem₃, maps₁, _, mem₄, maps₂, _, _,
    ⟨fits, rfl⟩, codePa, mem₅, allocated₃, _, _, ⟨notNull₃, rfl⟩, _, mem₆,
    maps₃, _, _, rfl, _, _, rfl, _, mem₇, store₁, _, mem₈, store₂, _, mem₉,
    store₃, _, mem₁₀, store₄, _, mem₁₁, store₅, store₆⟩
  have notScratch : ∀ page, Holder.trapframe (Owner.kernel page) ≠
      .scratch := by
    intro page same
    cases same
  have notTf : ∀ page, Holder.trapframe (Owner.kernel page) ≠
      .trapframe (.slot slot) := by
    intro page same
    cases same
  rcases filling.alloc notScratch notNull₁ allocated₁ with ⟨_, filling⟩
  rcases filling.alloc notScratch notNull₂ allocated₂ with ⟨_, filling⟩
  rcases filling.mapPage present (by decide) (by decide) (by decide)
    (by decide) (Or.inl rfl) maps₁ with ⟨_, filling⟩
  rcases filling.mapPage present (by decide) (by decide) (by decide)
    (by decide) (Or.inl rfl) maps₂ with ⟨_, filling⟩
  rcases filling.alloc notScratch notNull₃ allocated₃ with ⟨_, filling⟩
  rcases filling.mapPage present (by decide) (by decide) (by decide)
    (by decide) (Or.inr rfl) maps₃ with ⟨free', filling⟩
  rw [Function.update_idem, Function.update_idem] at filling
  have size : trapframeSize = 288 := rfl
  have pageSize : pgSize = 4096 := rfl
  have atCode : Function.update held .scratch codePa Holder.scratch = codePa :=
    Function.update_self _ _ _
  have notHeld : Holder.trapframe (Owner.slot slot) ≠ .scratch := by
    intro same
    cases same
  have atTf : Function.update held .scratch codePa
      (.trapframe (.slot slot)) = held (.trapframe (.slot slot)) :=
    Function.update_of_ne notHeld _ _
  have someCode : Function.update held .scratch codePa Holder.scratch ≠ 0 := by
    rw [atCode]
    exact notNull₃
  have wroteCode : ChangedIn (Function.update held .scratch codePa
      Holder.scratch) mem₆.bytes
      (memmove mem₆.bytes codePa.toNat boot.initcode boot.initcodeLen) := by
    rw [atCode]
    exact changedIn_memmove (Nat.le_refl _) (by omega)
  have filled := filling.write someCode notScratch wroteCode
  rw [← atTf] at some store₁ store₂ store₃ store₄ store₅ store₆
  have clears : ∀ page bytes, ChangedIn page bytes
      (memmove bytes page.toNat (fun _ => 0) trapframeSize) :=
    fun page bytes => changedIn_memmove (Nat.le_refl _) (by omega)
  have cleared := filled.write some notTf (clears _ _)
  have stored₁ := cleared.store some notTf (by decide) store₁
  have stored₂ := stored₁.store some notTf (by decide) store₂
  rw [← UInt64.add_zero (Function.update held Holder.scratch codePa
    (.trapframe (.slot slot)))] at store₃
  have stored₃ := stored₂.store some notTf (by decide) store₃
  have stored₄ := stored₃.store some notTf (by decide) store₄
  have stored₅ := stored₄.store some notTf (by decide) store₅
  exact ⟨free', _, stored₅.store some notTf (by decide) store₆⟩

end Filling

theorem formed_none (bytes : Bytes) : Formed bytes (fun _ : Owner => 0) := by
  constructor
  · intro owner va _ valid
    rw [pteAt_null] at valid
    cases valid
  · intro owner path _ notNull
    exact absurd (Forest.value_null path) notNull

/-- A state in which the first process is alone. -/
theorem Spaces.single
    {part : KernelPart} {state : State} {proc : Proc}
    {free' : Bool → List UInt64} {held held' : Holder Owner → UInt64}
    (procs : state.procs = Function.update (fun _ => emptyProc) procZero proc)
    (slots : SlotsHold state)
    (user : UserMem state.mem
      (Function.update (fun _ => 0) (.slot procZero) proc.pgtbl) free held)
    (trapframes : ∀ owner, held (.trapframe owner) = Function.update
      (bootHeld part) (.trapframe (.slot procZero)) proc.tf
        (.trapframe owner))
    (filled : Filling part
      (Function.update (fun _ => 0) (.slot procZero) proc.pgtbl)
      (.slot procZero) (gateEntry state.trampoline proc.tf) state.mem free'
      held') :
    Spaces part state free held := by
  have self : state.procs procZero = proc := by
    rw [procs, Function.update_self]
  have others : ∀ slot, slot ≠ procZero → state.procs slot = emptyProc := by
    intro slot other
    rw [procs, Function.update_of_ne other]
  have roots : ownerRoot state =
      Function.update (fun _ => 0) (.slot procZero) proc.pgtbl := by
    funext owner
    cases owner with
    | kernel page => rfl
    | slot slot =>
        change (state.procs slot).pgtbl = _
        by_cases same : slot = procZero
        · rw [same, self, Function.update_self]
        · have differs : Owner.slot slot ≠ .slot procZero :=
            fun equal => same (Owner.slot.inj equal)
          rw [others slot same, Function.update_of_ne differs]
          rfl
  refine ⟨slots, ?_, ?_, ?_, ?_, filled.kernelPgtbl, filled.intact, ?_⟩
  · rw [roots]
    exact user
  · rw [roots]
    exact filled.formed
  · intro slot
    rw [trapframes]
    by_cases same : slot = procZero
    · rw [same, self, Function.update_self]
    · have differs : Holder.trapframe (Owner.slot slot) ≠
          .trapframe (.slot procZero) := by
        intro equal
        cases equal
        exact same rfl
      rw [others slot same, Function.update_of_ne differs]
      rfl
  · intro page owned
    have notTf : Holder.trapframe (Owner.kernel page) ≠
        .trapframe (.slot procZero) := by
      intro same
      cases same
    rw [trapframes, Function.update_of_ne notTf, bootHeld_owned owned]
    exact ⟨(filled.kernelHeld page owned).1, rfl⟩
  · intro slot isUsed va isHigh
    have same : slot = procZero := by
      by_contra differs
      rw [others slot differs] at isUsed
      exact isUsed rfl
    have gate := filled.gates va isHigh
    rw [Function.update_self] at gate
    unfold pgtbls
    rw [same, self]
    exact gate

/-- The first process after `proc_make_first`. -/
theorem KernelStarted.first
    (started : KernelStarted kernel trampoline free) {boot : BootData}
    {final : State}
    (run : (procMakeFirst boot).Runs
      ⟨kernel, fun _ => emptyProc, 1, trampoline⟩ () final) :
    final.trampoline = trampoline ∧ ∃ free' held',
      Spaces (kernelPart kernel trampoline) final free' held' := by
  have booted : Booted ⟨kernel, fun _ => emptyProc, 1, trampoline⟩ :=
    ⟨rfl, free, started.user.lists, started.user.freeRam⟩
  rcases ForksHold.first booted run with ⟨_, _, forks, _⟩
  simp only [procMakeFirst, Program.runs_bind, Program.runs_get, runs_onMem,
    Program.runs_assert, runs_modifyProc, decide_eq_true_eq] at run
  rcases run with ⟨_, _, ⟨rfl, rfl⟩, pid, _, allocPid, tf, _,
    ⟨mem₁, allocTf, rfl⟩, _, _, ⟨tfSome, rfl⟩, pgtbl, _, ⟨mem₂, init, rfl⟩, _, _,
    ⟨pgtblSome, rfl⟩, _, _, ⟨mem₃, fills, rfl⟩, rfl⟩
  rcases allocPid_runs allocPid with ⟨_, rfl, rfl⟩
  rcases started.user.alloc_trapframe (.slot procZero) tfSome allocTf with
    ⟨sameBytes, free₁, user₁⟩
  rcases procPgtblInit_formed (r := .slot procZero) user₁ (formed_none _) rfl
    pgtblSome init with ⟨formed₂, gates⟩
  rcases procPgtblInit_user (r := .slot procZero) user₁ rfl init with
    ⟨null, _⟩ | ⟨_, free₂, user₂, untouched⟩
  · exact absurd null pgtblSome
  have isRoot : Function.update (fun _ : Owner => (0 : UInt64))
      (.slot procZero) pgtbl (.slot procZero) = pgtbl :=
    Function.update_self _ _ _
  have isTf : Function.update (bootHeld (kernelPart kernel trampoline))
      (.trapframe (.slot procZero)) tf (.trapframe (.slot procZero)) = tf :=
    Function.update_self _ _ _
  have kernelHeld : ∀ page, (kernelPart kernel trampoline).owned page →
      page ≠ 0 ∧ Function.update (bootHeld (kernelPart kernel trampoline))
        (.trapframe (.slot procZero)) tf (.trapframe (.kernel page)) = page := by
    intro page owned
    have notTf : Holder.trapframe (Owner.kernel page) ≠
        .trapframe (.slot procZero) := by
      intro same
      cases same
    rw [Function.update_of_ne notTf, bootHeld_owned owned]
    exact ⟨(started.ownedRam page owned).ne_zero, rfl⟩
  have filling : Filling (kernelPart kernel trampoline)
      (Function.update (fun _ => 0) (.slot procZero) pgtbl) (.slot procZero)
      (gateEntry trampoline tf) mem₂ free₂ (Function.update
        (bootHeld (kernelPart kernel trampoline))
        (.trapframe (.slot procZero)) tf) := by
    have same : mem₁.kernelPgtbl = kernel.kernelPgtbl :=
      (stable_kernelPgtbl _).alloc true rfl allocTf
    refine ⟨user₂.toHolds, formed₂, kernelHeld,
      procPgtblInit_kernelPgtbl _ _ _ same init, ?_, ?_⟩
    · intro page isFixed
      have isHeld := kernelHeld page
        ((kernelPart kernel trampoline).owned_of_fixed page isFixed)
      have kept := untouched.pages (.trapframe (.kernel page)) (by
        rw [isHeld.2]
        exact isHeld.1)
      rw [isHeld.2, sameBytes] at kept
      exact kept
    · rw [isRoot]
      exact gates
  have present : Function.update (fun _ : Owner => (0 : UInt64))
      (.slot procZero) pgtbl (.slot procZero) ≠ 0 := by
    rw [isRoot]
    exact pgtblSome
  have some : Function.update (bootHeld (kernelPart kernel
      trampoline)) (.trapframe (.slot procZero)) tf
      (.trapframe (.slot procZero)) ≠ 0 := by
    rw [isTf]
    exact tfSome
  rw [← isTf, ← isRoot] at fills
  rcases makeFirstMemory_user user₂ present some fills with
    ⟨free₃, held₃, user₃, trapframes, _⟩
  rcases filling.makeFirstMemory present some fills with ⟨_, _, filled⟩
  exact ⟨rfl, free₃, held₃, Spaces.single rfl forks.slots user₃
    (fun owner => trapframes owner) filled⟩

end Process
end WhuOs
