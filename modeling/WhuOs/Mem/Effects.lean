import WhuOs.Mem.Pmem

/-!
# What the memory manager does to the allocator

Every program of `vmem.c` and `uvm.c` writes bytes, takes pages, and gives pages
back to the user region.  None of them gives a page back to the kernel region:
the tables of a page table come from there, and `destroy_pgtbl` puts them on the
list of the user region.
-/

namespace WhuOs
namespace Mem

open Library
open Program (Preserves Runs)

/-- A property that survives writes, allocations and pages that are given back
to the user region. -/
structure Stable (property : State → Prop) : Prop where
  bytes : ∀ state bytes, property state → property (state.setBytes bytes)
  alloc : ∀ inKernel, Preserves property (pmemAlloc inKernel)
  free : ∀ page, Preserves property (pmemFree page false)

namespace Stable

variable {property : State → Prop}

theorem load
    (_ : Stable property) (address : UInt64) :
    Preserves property (load address) :=
  .bind .get fun _ => .pure _

theorem store
    (stable : Stable property) (address value : UInt64) :
    Preserves property (store address value) :=
  .modify fun _ holds => stable.bytes _ _ holds

theorem clearPage
    (stable : Stable property) (page : UInt64) :
    Preserves property (clearPage page) :=
  .bind (.assert _ _) fun _ => .modify fun _ holds => stable.bytes _ _ holds

theorem copyPage
    (stable : Stable property) (src dst : UInt64) :
    Preserves property (copyPage src dst) :=
  .modify fun _ holds => stable.bytes _ _ holds

theorem walkTables
    (stable : Stable property) (va : UInt64) (alloc : Bool) (level : Nat)
    (pgtbl : UInt64) :
    Preserves property (walkTables va alloc level pgtbl) := by
  induction level generalizing pgtbl with
  | zero => exact .pure _
  | succ level inductionHypothesis =>
      refine .bind (stable.load _) fun pte => ?_
      refine .ite (inductionHypothesis _) (.ite (.pure _) ?_)
      refine .bind (stable.alloc true) fun newtbl => ?_
      refine .bind (stable.clearPage newtbl) fun _ => ?_
      exact .bind (stable.store _ _) fun _ => inductionHypothesis _

theorem vmGetpte
    (stable : Stable property) (pgtbl va : UInt64) (alloc : Bool) :
    Preserves property (vmGetpte pgtbl va alloc) :=
  .bind .get fun _ => .bind (.assert _ _) fun _ =>
    stable.walkTables va alloc 2 _

theorem mapLoop
    (stable : Stable property) (pgtbl stop perm : UInt64) (fuel : Nat)
    (start pa : UInt64) :
    Preserves property (mapLoop pgtbl stop perm fuel start pa) := by
  induction fuel generalizing start pa with
  | zero => exact .pure _
  | succ fuel inductionHypothesis =>
      refine .ite ?_ (.pure _)
      refine .bind (stable.vmGetpte _ _ _) fun pte => ?_
      refine .bind (.assert _ _) fun _ => ?_
      exact .bind (stable.store _ _) fun _ => inductionHypothesis _ _

theorem vmMappages
    (stable : Stable property) (pgtbl va pa len perm : UInt64) :
    Preserves property (vmMappages pgtbl va pa len perm) :=
  stable.mapLoop _ _ _ _ _ _

theorem destroyPgtbl
    (stable : Stable property) (level : Nat) (pgtbl : UInt64) :
    Preserves property (destroyPgtbl level pgtbl) := by
  induction level generalizing pgtbl with
  | zero => exact .panic _
  | succ level inductionHypothesis =>
      refine .bind (.forM (fun index => ?_) _) fun _ => stable.free pgtbl
      refine .bind (stable.load _) fun pte => ?_
      exact .ite (inductionHypothesis _) (.ite (stable.free _) (.pure _))

theorem dropMapping
    (stable : Stable property) (pgtbl va : UInt64) :
    Preserves property (dropMapping pgtbl va) := by
  refine .bind (stable.vmGetpte _ _ _) fun entry => .ite ?_ (.pure _)
  refine .bind (stable.load _) fun pte => ?_
  exact .ite (stable.store _ _) (.pure _)

theorem uvmDestroyPgtbl
    (stable : Stable property) (pgtbl : UInt64) (level : Nat) :
    Preserves property (uvmDestroyPgtbl pgtbl level) := by
  refine .ite (.pure _) ?_
  refine .bind (stable.dropMapping _ _) fun _ => ?_
  exact .bind (stable.dropMapping _ _) fun _ => stable.destroyPgtbl level pgtbl

theorem copyMapping
    (stable : Stable property) (old new va : UInt64) :
    Preserves property (copyMapping old new va) := by
  refine .bind (stable.vmGetpte _ _ _) fun entry => .ite ?_ (.pure _)
  refine .bind (stable.load _) fun pte => .ite ?_ (.pure _)
  refine .bind (stable.alloc false) fun newPa => ?_
  refine .bind (.assert _ _) fun _ => ?_
  exact .bind (stable.copyPage _ _) fun _ => stable.vmMappages _ _ _ _ _

theorem uvmCopyPgtbl
    (stable : Stable property) (old new heapTop : UInt64)
    (ustackPages : UInt32) :
    Preserves property (uvmCopyPgtbl old new heapTop ustackPages) :=
  .bind (.forM (fun _ => stable.copyMapping _ _ _) _) fun _ =>
    .forM (fun _ => stable.copyMapping _ _ _) _

theorem freeMapping
    (stable : Stable property) (pgtbl va : UInt64) :
    Preserves property (freeMapping pgtbl va) := by
  refine .bind (stable.vmGetpte _ _ _) fun entry => .ite ?_ (.pure _)
  refine .bind (stable.load _) fun pte => .ite ?_ (.pure _)
  exact .bind (stable.free _) fun _ => stable.store _ _

theorem freeRange
    (stable : Stable property) (pgtbl stop : UInt64) (fuel : Nat)
    (va : UInt64) :
    Preserves property (freeRange pgtbl stop fuel va) := by
  induction fuel generalizing va with
  | zero => exact .pure _
  | succ fuel inductionHypothesis =>
      refine .ite ?_ (.pure _)
      exact .bind (stable.freeMapping _ _) fun _ => inductionHypothesis _

theorem growLoop
    (stable : Stable property) (pgtbl first stop : UInt64) (fuel : Nat)
    (va : UInt64) :
    Preserves property (growLoop pgtbl first stop fuel va) := by
  induction fuel generalizing va with
  | zero => exact .pure _
  | succ fuel inductionHypothesis =>
      refine .ite ?_ (.pure _)
      refine .bind (stable.alloc false) fun pa => .ite ?_ ?_
      · exact .bind (stable.freeRange _ _ _ _) fun _ => .pure _
      · refine .bind (stable.clearPage pa) fun _ => ?_
        exact .bind (stable.vmMappages _ _ _ _ _) fun _ =>
          inductionHypothesis _

theorem uvmHeapGrow
    (stable : Stable property) (pgtbl heapTop : UInt64) (len : UInt32) :
    Preserves property (uvmHeapGrow pgtbl heapTop len) :=
  .bind (stable.growLoop _ _ _ _ _) fun _ => .ite (.pure _) (.pure _)

theorem uvmHeapUngrow
    (stable : Stable property) (pgtbl heapTop : UInt64) (len : UInt32) :
    Preserves property (uvmHeapUngrow pgtbl heapTop len) :=
  .bind (stable.freeRange _ _ _ _) fun _ => .pure _

theorem copyoutLoop
    (stable : Stable property) (pgtbl : UInt64) (source : Bytes → Bytes)
    (len : UInt32) (fuel : Nat) (dstVa : UInt64) (copied : UInt32) :
    Preserves property (copyoutLoop pgtbl source len fuel dstVa copied) := by
  induction fuel generalizing dstVa copied with
  | zero => exact .pure _
  | succ fuel inductionHypothesis =>
      refine .ite ?_ (.pure _)
      refine .bind (stable.vmGetpte _ _ _) fun entry => ?_
      refine .bind (.assert _ _) fun _ => .bind (stable.load _) fun pte => ?_
      refine .bind (.assert _ _) fun _ => ?_
      refine .bind (.modify fun _ holds => stable.bytes _ _ holds) fun _ => ?_
      exact inductionHypothesis _ _

end Stable

/-! ## The kernel region -/

/-- At least a number of pages are missing from the kernel region, compared to
a number it once had. -/
def KernTaken (total taken : Nat) (state : State) : Prop :=
  (state.region true).allocable.toNat + taken ≤ total

/-- One page more is missing after an allocation that did not fail. -/
theorem kern_alloc
    {state final : State} {page : UInt64} {total taken : Nat}
    (isTaken : KernTaken total taken state) (some : page ≠ 0)
    (run : (pmemAlloc true).Runs state page final) :
    KernTaken total (taken + 1) final := by
  rcases pmemAlloc_runs.mp run with ⟨_, rfl, _⟩ | ⟨notZero, _, rfl⟩
  · exact absurd rfl some
  · unfold KernTaken at isTaken ⊢
    have less := toNat_sub_one notZero
    rw [setRegion_region_self]
    show ((state.region true).allocable - 1).toNat + _ ≤ _
    omega

/-- One page less is missing after a page was given back. -/
theorem kern_free
    {state final : State} {page : UInt64} {total taken : Nat} {result : Unit}
    (isTaken : KernTaken total (taken + 1) state)
    (run : (pmemFree page true).Runs state result final) :
    KernTaken total taken final := by
  obtain rfl := pmemFree_runs.mp run
  unfold KernTaken at isTaken ⊢
  have more : ((state.region true).allocable + 1).toNat ≤
      (state.region true).allocable.toNat + 1 := by
    rw [UInt32.toNat_add]
    exact Nat.mod_le _ _
  simp only [State.giveBack, setRegion_region_self]
  omega

theorem stable_kernTaken (total taken : Nat) :
    Stable (KernTaken total taken) where
  bytes _ _ isTaken := isTaken
  alloc inKernel := by
    intro before page after isTaken run
    rcases pmemAlloc_runs.mp run with ⟨_, _, rfl⟩ | ⟨notZero, _, rfl⟩
    · exact isTaken
    · cases inKernel with
      | false => exact isTaken
      | true =>
          unfold KernTaken at isTaken ⊢
          have less := toNat_sub_one notZero
          rw [setRegion_region_self]
          show ((before.region true).allocable - 1).toNat + _ ≤ _
          omega
  free page := by
    intro before result after isTaken run
    obtain rfl := pmemFree_runs.mp run
    exact isTaken

end Mem
end WhuOs
