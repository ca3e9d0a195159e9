import WhuOs.Process.KernelMap
import WhuOs.Process.Lifetime
import WhuOs.Process.Spaces

/-!
# New address spaces

`proc_pgtbl_init` maps the trampoline and the trapframe in an empty page table.
`proc_fork` adds copies of user pages and `proc_make_first` the code and the
stack of the first process.
-/

namespace WhuOs
namespace Process

open Library
open Library.Bytes
open Mem
open Program (Preserves Runs)

/-! ## Page tables -/

section PageTable

variable {ρ : Type} [DecidableEq ρ] {root : ρ → UInt64}
  {mem mem' : Mem.State} {free : Bool → List UInt64}
  {held : Holder ρ → UInt64} {r : ρ}

/-- A page that was allocated and cleared is an empty page table. -/
theorem UserMem.newRoot
    (user : UserMem mem root free held) (formed : Formed mem.bytes root)
    (absent : root r = 0) {page : UInt64} (notNull : page ≠ 0)
    (allocated : (pmemAlloc true).Runs mem page mem') :
    ∃ free', UserMem (mem'.setBytes (clearedBytes mem'.bytes page))
        (Function.update root r page) free' held ∧
      Formed (clearedBytes mem'.bytes page) (Function.update root r page) ∧
      ∀ va, pteAt (clearedBytes mem'.bytes page) page va = 0 := by
  rcases user.toHolds.alloc_some .scratch notNull allocated with
    ⟨sameBytes, _, free', holds⟩
  have atScratch : Function.update held Holder.scratch page .scratch = page :=
    Function.update_self _ _ _
  have some : Function.update held Holder.scratch page .scratch ≠ 0 := by
    rw [atScratch]
    exact notNull
  have inRam := holds.inRam .scratch some
  have written : ChangedIn (Function.update held Holder.scratch page .scratch)
      mem'.bytes (clearedBytes mem'.bytes page) := by
    rw [atScratch]
    exact changedIn_cleared _ _
  have holds' := holds.write some written
  have empty := entryOf_cleared mem'.bytes page
  have isHeld : Function.update held Holder.scratch 0 = held := by
    rw [← user.scratch]
    exact Function.update_eq_self _ _
  have added := holds'.addRoot some (by
    rw [atScratch]
    exact empty) r
  rw [atScratch, Function.update_idem, isHeld] at added
  have ptes : ∀ r' va, pteAt (clearedBytes mem'.bytes page)
      (Function.update root r page r') va =
        if r' = r then 0 else pteAt mem.bytes (root r') va := by
    intro r' va
    rw [Holds.pteAt_addRoot notNull empty, holds.pteAt_write some written,
      sameBytes]
  have formed' : Formed (clearedBytes mem'.bytes page) root := by
    rw [← sameBytes] at formed
    exact formed.write holds some written
  refine ⟨free', ⟨added, ?_, user.scratch⟩, ⟨?_, ?_⟩, ?_⟩
  · intro r' va isUser
    rw [State.setBytes_bytes, ptes]
    have backed := user.backed r' va isUser
    split
    · next same =>
      rw [same, absent, pteAt_null] at backed
      rw [same]
      exact backed
    · exact backed
  · intro r' va isUser valid
    rw [ptes] at valid ⊢
    split at valid
    · cases valid
    · next other =>
      rw [if_neg other]
      exact formed.userFlags r' va isUser valid
  · intro r' path bound present
    rw [Holds.tableAt_addRoot notNull empty] at present ⊢
    split at present
    · next same =>
      rw [if_pos same]
      split at present
      · next isRoot =>
        rw [atScratch] at inRam
        rw [if_pos isRoot]
        exact inRam
      · exact absurd rfl present
    · next other =>
      rw [if_neg other]
      exact formed'.tables r' path bound present
  · intro va
    exact pteAt_empty empty va

/-- A page above the user pages is mapped. -/
theorem UserMem.mapHigh
    (user : UserMem mem root free held) (formed : Formed mem.bytes root)
    (present : root r ≠ 0) {va pa perm : UInt64} (aligned : Aligned va)
    (low : va.toNat + 4096 ≤ 2 ^ 38) (high : userPages ≤ pageOf va)
    (run : (vmMappages (root r) va pa 4096 perm).Runs mem () mem') :
    ∃ free', UserMem mem' root free' held ∧ Formed mem'.bytes root ∧
      ∀ va', pteAt mem'.bytes (root r) va' =
        if pageOf va' = pageOf va then leafPte pa perm
        else pteAt mem.bytes (root r) va' := by
  rcases vmMappages_page user.tables user.lists present aligned low run with
    ⟨free', mapped⟩
  have backed : Backed mem'.bytes root held := by
    intro r' va' isUser
    rw [mapped.outside r' va' fun inside => by omega]
    exact user.backed r' va' isUser
  refine ⟨free', ⟨user.toHolds.grown mapped.toGrown, backed, user.scratch⟩,
    ?_, ?_⟩
  · apply formed.mapped (user.freeRam true) mapped
    intro isUser
    omega
  · intro va'
    split
    · next isPage => exact mapped.inside 0 Nat.one_pos va' isPage
    · next other =>
      exact mapped.outside r va' fun inside => other (by omega)

/-- `proc_pgtbl_init` gives an address space with its gates to the kernel. -/
theorem procPgtblInit_formed
    (user : UserMem mem root free held) (formed : Formed mem.bytes root)
    (absent : root r = 0) {trampoline trapframe pgtbl : UInt64}
    (some : pgtbl ≠ 0)
    (run : (procPgtblInit trampoline trapframe).Runs mem pgtbl mem') :
    Formed mem'.bytes (Function.update root r pgtbl) ∧
      ∀ va, userPages ≤ pageOf va → pteAt mem'.bytes pgtbl va =
        gateEntry trampoline trapframe (pageOf va) := by
  rw [procPgtblInit, Program.runs_bind] at run
  rcases run with ⟨page, mem₁, allocated, run⟩
  by_cases null : page = 0
  · rw [if_pos null, Program.runs_pure] at run
    exact absurd run.1.symm some
  rw [if_neg null] at run
  simp only [Program.runs_bind, Program.runs_pure] at run
  rcases run with ⟨_, mem₂, clears, _, mem₃, mapsTrampoline, _, mem₄,
    mapsTrapframe, rfl, rfl⟩
  rcases (clearPage_runs null).mp clears with rfl
  rcases UserMem.newRoot user formed absent null allocated with
    ⟨_, user₁, formed₁, empty⟩
  have isRoot : Function.update root r page r = page :=
    Function.update_self _ _ _
  have trampolineRun : (vmMappages (Function.update root r page r)
      trampolineVa trampoline 4096 (pteR ||| pteX)).Runs
      (mem₁.setBytes (clearedBytes mem₁.bytes page)) () mem₃ := by
    rw [isRoot]
    exact mapsTrampoline
  rw [← isRoot] at mapsTrapframe
  have present : Function.update root r page r ≠ 0 := by
    rw [isRoot]
    exact null
  rcases UserMem.mapHigh user₁ formed₁ present (by decide) (by decide)
    (by decide) trampolineRun with ⟨_, user₂, formed₂, ptes₂⟩
  rcases UserMem.mapHigh user₂ formed₂ present (by decide) (by decide)
    (by decide) mapsTrapframe with ⟨_, _, formed₃, ptes₃⟩
  refine ⟨formed₃, ?_⟩
  intro va isHigh
  rw [isRoot] at ptes₂ ptes₃
  rw [ptes₃, ptes₂, State.setBytes_bytes, empty]
  have differ : pageOf trampolineVa ≠ pageOf trapframeVa := by decide
  unfold gateEntry
  split
  · next isTrapframe =>
    rw [if_neg fun isTrampoline => differ (isTrampoline.symm.trans
      isTrapframe)]
  · rfl

/-- The pages of the stack and the heap are user pages. -/
theorem copiedPage_user
    {heapTop : UInt64} (low : heapTop.toNat ≤ 2 ^ 30) {ustackPages : UInt32}
    {page : Nat} (copied : CopiedPage heapTop ustackPages page) :
    page < userPages := by
  rcases copied with below | ⟨index, _, isPage⟩
  · unfold userPages
    omega
  · have inside := (ustackVa_toNat index).2
    rw [isPage]
    unfold pageOf userPages at *
    omega

/-- The address space of a child. -/
theorem fork_formed
    {old new : ρ} (user : UserMem mem root free held)
    (formed : Formed mem.bytes root) (differ : old ≠ new)
    (oldPresent : root old ≠ 0) (newAbsent : root new = 0)
    {heapTop : UInt64} (low : heapTop.toNat ≤ 2 ^ 30) {ustackPages : UInt32}
    {trampoline tf pgtbl src : UInt64} {mem₁ mem₂ mem₃ : Mem.State}
    (tfSome : tf ≠ 0) (pgtblSome : pgtbl ≠ 0)
    (allocTf : (pmemAlloc true).Runs mem tf mem₁)
    (init : (procPgtblInit trampoline tf).Runs mem₁ pgtbl mem₂)
    (copy : (uvmCopyPgtbl (root old) pgtbl heapTop ustackPages).Runs mem₂ ()
      mem₃)
    (copyTf : (copyTrapframe src tf).Runs mem₃ () mem') :
    Formed mem'.bytes (Function.update root new pgtbl) ∧
      ∀ va, userPages ≤ pageOf va → pteAt mem'.bytes pgtbl va =
        gateEntry trampoline tf (pageOf va) := by
  rcases user.alloc_trapframe new tfSome allocTf with
    ⟨sameBytes, free₁, user₁⟩
  rw [← sameBytes] at formed
  rcases procPgtblInit_formed user₁ formed newAbsent pgtblSome init with
    ⟨formed₂, gates⟩
  rcases procPgtblInit_user user₁ newAbsent init with
    ⟨null, _⟩ | ⟨_, free₂, user₂, _⟩
  · exact absurd null pgtblSome
  have rootNew : Function.update root new pgtbl new = pgtbl :=
    Function.update_self _ _ _
  have rootOld : Function.update root new pgtbl old = root old :=
    Function.update_of_ne differ _ _
  rw [← rootOld] at oldPresent
  rw [← rootNew, ← rootOld] at copy
  have newPresent : Function.update root new pgtbl new ≠ 0 := by
    rw [rootNew]
    exact pgtblSome
  rcases user₂.copyPgtbl differ oldPresent newPresent low copy with
    ⟨free₃, held₃, user₃, copied⟩
  have formed₃ := (Space.copyPgtbl oldPresent newPresent low ustackPages
    ⟨⟨free₂, _, user₂⟩, formed₂⟩ copy).2
  have atTf : held₃ (.trapframe new) = tf := by
    rw [(copied.touches.holders (.trapframe new) nofun fun _ _ => nofun).1]
    exact Function.update_self _ _ _
  have someTf : held₃ (.trapframe new) ≠ 0 := by
    rw [atTf]
    exact tfSome
  have alignedTf := (user₃.taken someTf).aligned
  rw [atTf] at alignedTf
  rcases copyTrapframe_runs alignedTf copyTf with ⟨bytes, rfl, changed, _⟩
  rw [← atTf] at changed
  refine ⟨formed₃.write user₃.toHolds someTf changed, ?_⟩
  intro va isHigh
  have kept := copied.touches.ptes new va fun both =>
    absurd (copiedPage_user low both.2) (Nat.not_lt.mpr isHigh)
  have written := user₃.pteAt_write someTf changed new va
  rw [rootNew] at kept written
  rw [State.setBytes_bytes, written, kept]
  exact gates va isHigh

end PageTable

/-! ## Forks -/

variable {kernel : KernelPart} {state final : State}
  {free : Bool → List UInt64} {held : Holder Owner → UInt64}
  {curr slot : Pid}

/-- The slot of a child that was not made is as empty as it was. -/
theorem samePages_freed
    (slots : SlotsHold state) (isUnused : (state.procs slot).state = .unused) :
    SamePages (state.procs slot) (state.procs slot).freed := by
  rcases slots.unused slot isUnused with ⟨noPgtbl, noTf⟩
  exact ⟨noPgtbl.symm, noTf.symm, iff_of_true rfl isUnused,
    fun isUsed => absurd isUnused isUsed, rfl⟩

/-- A page is taken from a list and given back to it. -/
theorem Spaces.takeBack
    (spaces : Spaces kernel state free held)
    (isUnused : (state.procs slot).state = .unused) {tf : UInt64}
    (tfSome : tf ≠ 0) {middle : Mem.State}
    (alloc : (pmemAlloc true).Runs state.mem tf middle) :
    (∃ free', Spaces kernel (state.setMem (middle.giveBack tf true)) free'
      held) ∧ SameTrapframes state
        (state.setMem (middle.giveBack tf true)) := by
  rcases spaces.user.alloc_trapframe (.slot slot) tfSome alloc with
    ⟨sameBytes, free₁, user₁⟩
  have atTf : Function.update held (.trapframe (.slot slot)) tf
      (.trapframe (.slot slot)) = tf := Function.update_self _ _ _
  have some : Function.update held (.trapframe (.slot slot)) tf
      (.trapframe (.slot slot)) ≠ 0 := by
    rw [atTf]
    exact tfSome
  have noTf : held (.trapframe (.slot slot)) = 0 := by
    rw [spaces.trapframe]
    exact (spaces.slots.unused slot isUnused).2
  have sameHeld : Function.update held (.trapframe (.slot slot)) 0 = held := by
    rw [← noTf]
    exact Function.update_eq_self _ _
  have formed := spaces.formed
  rw [← sameBytes] at formed
  have user := user₁.giveBack_trapframe some true
  have formed' := formed.giveBack user₁ some true
  have ptes := user₁.pteAt_giveBack some true
  have changed := changedIn_giveBack middle (Function.update held
    (.trapframe (.slot slot)) tf (.trapframe (.slot slot))) true
  have unchanged := fun holder isSome differs =>
    @Holds.unchanged_write _ _ _ _ _ _ user₁.toHolds _ holder some isSome
      differs _ changed
  rw [atTf, Function.update_idem, sameHeld] at user
  rw [atTf] at formed' ptes unchanged
  have touches : Touches (ownerRoot state) (.slot slot) (fun _ => False)
      state.mem held (middle.giveBack tf true) held := by
    constructor
    · intro r va _
      rw [ptes, sameBytes]
    · intro holder _ _
      refine ⟨rfl, ?_⟩
      intro isSome
      have differs : holder ≠ .trapframe (.slot slot) := by
        rintro rfl
        exact isSome noTf
      have kept : Function.update held (.trapframe (.slot slot)) tf holder =
          held holder := Function.update_of_ne differs _ _
      have same := unchanged holder (by
        rw [kept]
        exact isSome) differs
      rw [kept, sameBytes] at same
      exact same
  refine ⟨⟨_, spaces.move (fun _ => False.elim) (spaces.slots.setMem ?_) rfl ?_
    (fun _ => ⟨rfl, rfl, rfl⟩) user formed' touches⟩,
    spaces.sameTrapframes touches⟩
  · intro slot' va
    exact touches.ptes (.slot slot') va fun both => both.2
  · have same : middle.kernelPgtbl = state.mem.kernelPgtbl :=
      (stable_kernelPgtbl _).alloc true rfl alloc
    exact same

/-- `proc_fork` without a slot or without memory for the child. -/
theorem Spaces.fork_failed
    (spaces : Spaces kernel state free held)
    (run : procAlloc.Runs state none final) :
    (∃ free', Spaces kernel final free' held) ∧
      SameTrapframes state final := by
  rcases procAlloc_none spaces.slots.unused run with
    rfl | ⟨slot, mem, isUnused, rfl, noTf | ⟨tf, middle, middle', tfSome,
      allocTf, init, frees⟩⟩
  · exact ⟨⟨free, spaces⟩, .of_bytes rfl⟩
  · rcases spaces.user.toHolds.alloc .scratch noTf with
      ⟨_, rfl⟩ | ⟨notNull, _⟩
    · exact ⟨⟨free, spaces.congr rfl rfl
        (samePages_freed spaces.slots isUnused).setProc⟩, .of_bytes rfl⟩
    · exact absurd rfl notNull
  · rcases spaces.user.alloc_trapframe (.slot slot) tfSome allocTf with
      ⟨_, _, user⟩
    have noPgtbl : ownerRoot state (.slot slot) = 0 :=
      (spaces.slots.unused slot isUnused).1
    rcases procPgtblInit_user user noPgtbl init with
      ⟨_, rfl⟩ | ⟨notNull, _⟩
    · rcases pmemFree_runs.mp frees with rfl
      rcases spaces.takeBack isUnused tfSome allocTf with ⟨⟨free', back⟩, same⟩
      exact ⟨⟨free', back.congr rfl rfl
        (samePages_freed back.slots isUnused).setProc⟩, same⟩
    · exact absurd rfl notNull

/-- `proc_pgtbl_init` leaves the page table of the kernel where it is. -/
theorem procPgtblInit_kernelPgtbl (trampoline tf pgtbl : UInt64) :
    Preserves (fun mem : Mem.State => mem.kernelPgtbl = pgtbl)
      (procPgtblInit trampoline tf) := by
  have stable := stable_kernelPgtbl pgtbl
  unfold procPgtblInit
  apply Preserves.bind (stable.alloc true)
  intro page
  refine Preserves.ite (Preserves.pure 0) ?_
  apply Preserves.bind (stable.clearPage page)
  intro _
  apply Preserves.bind (stable.vmMappages _ _ _ _ _)
  intro _
  exact Preserves.bind (stable.vmMappages _ _ _ _ _) fun _ =>
    Preserves.pure page

/-- `proc_fork` leaves it there, too. -/
theorem fork_kernelPgtbl
    {trampoline tf pgtbl root heapTop src : UInt64} {ustackPages : UInt32}
    {mem mem₁ mem₂ mem₃ mem₄ : Mem.State}
    (allocTf : (pmemAlloc true).Runs mem tf mem₁)
    (init : (procPgtblInit trampoline tf).Runs mem₁ pgtbl mem₂)
    (copy : (uvmCopyPgtbl root pgtbl heapTop ustackPages).Runs mem₂ () mem₃)
    (copyTf : (copyTrapframe src tf).Runs mem₃ () mem₄) :
    mem₄.kernelPgtbl = mem.kernelPgtbl := by
  have stable := stable_kernelPgtbl mem.kernelPgtbl
  have first : mem₁.kernelPgtbl = mem.kernelPgtbl :=
    stable.alloc true rfl allocTf
  have second := procPgtblInit_kernelPgtbl _ _ _ first init
  have third := stable.uvmCopyPgtbl _ _ _ _ second copy
  exact copyTrapframe_stable stable _ _ third copyTf

/-- `proc_fork`. -/
theorem Spaces.fork
    (spaces : Spaces kernel state free held)
    (isUsed : (state.procs curr).state ≠ .unused) {pid : Int}
    (run : (procFork curr).Runs state pid final) :
    ∃ free' held', Spaces kernel final free' held' := by
  rcases spaces.forksHold.fork isUsed run with ⟨⟨_, _, holds⟩, _⟩
  have decomposed := run
  rw [procFork, Program.runs_bind] at decomposed
  rcases decomposed with ⟨allocated, middle, alloc, rest⟩
  cases allocated with
  | none =>
      rcases Program.runs_pure.mp rest with ⟨rfl, rfl⟩
      rcases spaces.fork_failed alloc with ⟨⟨free', spaces'⟩, _⟩
      exact ⟨free', held, spaces'⟩
  | some child =>
      rcases procFork_of_alloc isUsed alloc run with ⟨unused, _, tf, pgtbl,
        mem₁, mem₂, mem₃, mem₄, rfl, tfSome, pgtblSome, allocTf, init, copy,
        copyTf, rfl⟩
      have isUnused : (state.procs child).state = .unused := by
        simpa using List.find?_some unused
      have differ : Owner.slot curr ≠ .slot child := by
        intro same
        rw [Owner.slot.inj same] at isUsed
        exact isUsed isUnused
      rcases spaces.slots.unused child isUnused with ⟨noPgtbl, noTf⟩
      rcases spaces.slots.used curr isUsed with ⟨oldPgtbl, oldTf⟩
      have low := spaces.slots.low curr isUsed
      rw [← spaces.trapframe] at noTf oldTf copyTf
      rcases fork_memory spaces.user differ oldPgtbl noPgtbl oldTf noTf low
        tfSome pgtblSome allocTf init copy copyTf with
        ⟨memory, free', held', user, trapframes⟩
      rcases fork_formed spaces.user spaces.formed differ oldPgtbl noPgtbl low
        tfSome pgtblSome allocTf init copy copyTf with ⟨formed, gates⟩
      have roots := ownerRoot_setProc ((state.setGlobalPid
        (wrapInt (state.globalPid + 1))).setMem mem₄) child
        ((state.procs child).forked curr (state.procs curr) state.globalPid tf
          pgtbl (kstackOf child))
      have kernelPgtbl := fork_kernelPgtbl allocTf init copy copyTf
      change ownerRoot _ = Function.update (ownerRoot state) (.slot child)
        pgtbl at roots
      rw [← roots] at user formed
      refine ⟨free', held', holds.slots, user, formed, ?_, ?_,
        kernelPgtbl.trans spaces.kernelPgtbl, ?_, ?_⟩
      · intro slot
        rw [trapframes]
        by_cases isChild : slot = child
        · rw [isChild, setProc_procs_self, if_pos rfl]
          rfl
        · rw [setProc_procs_of_ne isChild, if_neg fun same => isChild
            (Owner.slot.inj same)]
          exact spaces.trapframe slot
      · intro page owned
        have notSlot : Owner.kernel page ≠ .slot child := by
          intro same
          cases same
        rw [trapframes, if_neg notSlot]
        exact spaces.kernelHeld page owned
      · intro page isFixed
        have owned := kernel.owned_of_fixed page isFixed
        have notUser : ∀ page', Holder.trapframe (Owner.kernel page) ≠
            .user (.slot child) page' := by
          intro page' same
          cases same
        have kept := memory.pages _ (spaces.kernel_some owned) notUser
        rw [(spaces.kernelHeld page owned).2] at kept
        exact (spaces.intact page isFixed).trans kept
      · intro slot isUsed' va isHigh
        by_cases isChild : slot = child
        · unfold pgtbls
          rw [isChild, setProc_procs_self]
          exact gates va isHigh
        · unfold pgtbls
          rw [setProc_procs_of_ne isChild] at isUsed' ⊢
          have kept := memory.ptes (.slot slot) va fun same => isChild
            (Owner.slot.inj same)
          exact kept.trans (spaces.gates slot isUsed' va isHigh)

end Process
end WhuOs
