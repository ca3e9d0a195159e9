import Mathlib.Data.List.Nodup
import Mathlib.Data.List.Perm.Basic
import WhuOs.Library.Linked
import WhuOs.Library.TransitionSystem
import WhuOs.Mem.Defs

/-!
# The page allocator

The free pages of a region form a list through their first words.  A run of the
allocator keeps, beside the memory, which pages of each region are allocated.
-/

namespace WhuOs
namespace Mem

open Library
open Library.Bytes
open Program (Runs)

variable {state final : State}

/-! ## Words of pages -/

@[simp] theorem runs_load {address result : UInt64} :
    (load address).Runs state result final ↔
      read64 state.bytes address.toNat = result ∧ state = final := by
  simp only [load, Program.runs_bind, Program.runs_get, Program.runs_pure]
  constructor
  · rintro ⟨_, _, ⟨rfl, rfl⟩, rfl, rfl⟩
    exact ⟨rfl, rfl⟩
  · rintro ⟨rfl, rfl⟩
    exact ⟨_, _, ⟨rfl, rfl⟩, rfl, rfl⟩

@[simp] theorem runs_store {address value : UInt64} {result : Unit} :
    (store address value).Runs state result final ↔
      state.setBytes (write64 state.bytes address.toNat value) = final := by
  simp [store]

@[simp] theorem setBytes_region (bytes : Bytes) (inKernel : Bool) :
    (state.setBytes bytes).region inKernel = state.region inKernel := rfl

@[simp] theorem setRegion_bytes (inKernel : Bool) (region : Region) :
    (state.setRegion inKernel region).bytes = state.bytes := by
  cases inKernel <;> rfl

@[simp] theorem setRegion_region_self (inKernel : Bool) (region : Region) :
    (state.setRegion inKernel region).region inKernel = region := by
  cases inKernel <;> rfl

theorem setRegion_region_of_ne
    {inKernel other : Bool} (differs : other ≠ inKernel) (region : Region) :
    (state.setRegion inKernel region).region other = state.region other := by
  cases inKernel <;> cases other <;> first | rfl | exact absurd rfl differs

@[simp] theorem setRegion_kernelPgtbl (inKernel : Bool) (region : Region) :
    (state.setRegion inKernel region).kernelPgtbl = state.kernelPgtbl := by
  cases inKernel <;> rfl

/-- An address that starts a page. -/
def Aligned (page : UInt64) : Prop := page.toNat % 4096 = 0

instance (page : UInt64) : Decidable (Aligned page) :=
  inferInstanceAs (Decidable (_ = _))

/-- An address inside a page. -/
def InPage (address : Nat) (page : UInt64) : Prop :=
  page.toNat ≤ address ∧ address < page.toNat + 4096

/-- Different pages have no address in common. -/
theorem Aligned.eq_of_inPage
    {page page' : UInt64} (aligned : Aligned page) (aligned' : Aligned page')
    {address : Nat} (inside : InPage address page)
    (inside' : InPage address page') : page = page' := by
  unfold Aligned at aligned aligned'
  unfold InPage at inside inside'
  apply UInt64.toNat_inj.mp
  omega

/-- The first word of a page that is not written to. -/
theorem read64_write64_of_ne
    {page page' value : UInt64} (aligned : Aligned page)
    (aligned' : Aligned page') (differs : page ≠ page') (bytes : Bytes) :
    read64 (write64 bytes page'.toNat value) page.toNat =
      read64 bytes page.toNat := by
  have differs : page.toNat ≠ page'.toNat := fun same =>
    differs (UInt64.toNat_inj.mp same)
  unfold Aligned at aligned aligned'
  apply read64_memmove_of_disjoint
  omega

/-! ## The two operations -/

/-- The link of a free page. -/
def State.next (state : State) (page : UInt64) : UInt64 :=
  read64 state.bytes page.toNat

@[simp] theorem setRegion_next (inKernel : Bool) (region : Region) :
    (state.setRegion inKernel region).next = state.next := by
  funext page
  simp [State.next]

/-- The counter after an allocation. -/
theorem toNat_sub_one {count : UInt32} (some : count ≠ 0) :
    (count - 1).toNat + 1 = count.toNat := by
  have positive : count.toNat ≠ 0 := fun none => some
    (UInt32.toNat_inj.mp none)
  have one : (1 : UInt32).toNat = 1 := rfl
  have below : 1 ≤ count := by
    rw [UInt32.le_iff_toNat_le, one]
    omega
  rw [UInt32.toNat_sub_of_le _ _ below, one]
  omega

/-- Taking a page unlinks the first of the list. -/
theorem pmemAlloc_runs
    {inKernel : Bool} {page : UInt64} :
    (pmemAlloc inKernel).Runs state page final ↔
    ((state.region inKernel).allocable = 0 ∧ page = 0 ∧ final = state) ∨
    ((state.region inKernel).allocable ≠ 0 ∧
      page = (state.region inKernel).listHead ∧
      final = state.setRegion inKernel
        ⟨(state.region inKernel).start, (state.region inKernel).stop,
          (state.region inKernel).allocable - 1, state.next page⟩) := by
  simp only [pmemAlloc, Program.runs_bind, Program.runs_get]
  constructor
  · rintro ⟨_, _, ⟨rfl, rfl⟩, run⟩
    split at run
    · next none =>
      rw [Program.runs_pure] at run
      exact Or.inl ⟨none, run.1.symm, run.2.symm⟩
    · next some =>
      simp only [Program.runs_bind, runs_load, Program.runs_modify,
        Program.runs_pure] at run
      obtain ⟨_, _, ⟨rfl, rfl⟩, _, _, rfl, rfl, rfl⟩ := run
      exact Or.inr ⟨some, rfl, rfl⟩
  · rintro (⟨none, rfl, rfl⟩ | ⟨some, rfl, rfl⟩)
    · refine ⟨_, _, ⟨rfl, rfl⟩, ?_⟩
      rw [if_pos none, Program.runs_pure]
      exact ⟨rfl, rfl⟩
    · refine ⟨_, _, ⟨rfl, rfl⟩, ?_⟩
      rw [if_neg some]
      simp only [Program.runs_bind, runs_load, Program.runs_modify,
        Program.runs_pure]
      exact ⟨_, _, ⟨rfl, rfl⟩, (), _, rfl, trivial, rfl⟩

/-- The state after a page was put on the list of a region. -/
def State.giveBack (state : State) (page : UInt64) (inKernel : Bool) : State :=
  (state.setBytes (write64 state.bytes page.toNat
    (state.region inKernel).listHead)).setRegion inKernel
      ⟨(state.region inKernel).start, (state.region inKernel).stop,
        (state.region inKernel).allocable + 1, page⟩

theorem pmemFree_runs
    {page : UInt64} {inKernel : Bool} {result : Unit} :
    (pmemFree page inKernel).Runs state result final ↔
      state.giveBack page inKernel = final := by
  simp [pmemFree, State.giveBack]

/-! ## Regions -/

/-- Where the allocatable memory starts, as `kernel.ld` places it: at a page
boundary behind the start of memory, with room for the pages of the kernel. -/
structure Layout where
  allocBegin : UInt64
  aligned : Aligned allocBegin
  low : 0x80000000 ≤ allocBegin.toNat
  room : allocBegin.toNat + kernelPages * pgSize ≤ allocEnd.toNat

namespace Layout

variable (layout : Layout)

/-- The end of the pages of the kernel. -/
def boundary : UInt64 :=
  layout.allocBegin + UInt64.ofNat (kernelPages * pgSize)

/-- The start of a region. -/
def start : Bool → UInt64
  | true => layout.allocBegin
  | false => layout.boundary

/-- The end of a region. -/
def stop : Bool → UInt64
  | true => layout.boundary
  | false => allocEnd

/-- The number of pages of a region. -/
def count (inKernel : Bool) : Nat :=
  ((layout.stop inKernel).toNat - (layout.start inKernel).toNat) / 4096

/-- The page of a region with a number. -/
def page (inKernel : Bool) (index : Nat) : UInt64 :=
  layout.start inKernel + UInt64.ofNat (4096 * index)

/-- The pages of a region. -/
def pages (inKernel : Bool) : List UInt64 :=
  (List.range (layout.count inKernel)).map (layout.page inKernel)

theorem boundary_toNat :
    layout.boundary.toNat = layout.allocBegin.toNat + 8388608 := by
  have room := layout.room
  have size : kernelPages * pgSize = 8388608 := rfl
  have stop : allocEnd.toNat = 2281701376 := rfl
  have offset : (UInt64.ofNat (kernelPages * pgSize)).toNat = 8388608 := rfl
  unfold boundary
  rw [UInt64.toNat_add, offset]
  omega

/-- A region starts before it ends, at page boundaries, and behind the start of
memory. -/
theorem bounds (inKernel : Bool) :
    0x80000000 ≤ (layout.start inKernel).toNat ∧
    (layout.start inKernel).toNat ≤ (layout.stop inKernel).toNat ∧
    (layout.stop inKernel).toNat ≤ 0x88000000 ∧
    (layout.start inKernel).toNat % 4096 = 0 ∧
    (layout.stop inKernel).toNat % 4096 = 0 := by
  have boundary := layout.boundary_toNat
  have low := layout.low
  have aligned : layout.allocBegin.toNat % 4096 = 0 := layout.aligned
  have room := layout.room
  have size : kernelPages * pgSize = 8388608 := rfl
  have stop : allocEnd.toNat = 2281701376 := rfl
  cases inKernel with
  | true =>
      simp only [start, Layout.stop]
      omega
  | false =>
      simp only [start, Layout.stop]
      omega

theorem page_toNat
    {inKernel : Bool} {index : Nat} (bound : index < layout.count inKernel) :
    (layout.page inKernel index).toNat =
      (layout.start inKernel).toNat + 4096 * index := by
  have bounds := layout.bounds inKernel
  unfold count at bound
  unfold page
  rw [UInt64.toNat_add, UInt64.toNat_ofNat']
  omega

/-- The pages of a region are the page boundaries in it. -/
theorem mem_pages {inKernel : Bool} {page : UInt64} :
    page ∈ layout.pages inKernel ↔ Aligned page ∧
      layout.start inKernel ≤ page ∧ page < layout.stop inKernel := by
  have bounds := layout.bounds inKernel
  have number : layout.count inKernel = ((layout.stop inKernel).toNat -
      (layout.start inKernel).toNat) / 4096 := rfl
  simp only [pages, List.mem_map, List.mem_range, UInt64.le_iff_toNat_le,
    UInt64.lt_iff_toNat_lt, Aligned]
  constructor
  · rintro ⟨index, bound, rfl⟩
    rw [layout.page_toNat bound]
    omega
  · rintro ⟨aligned, above, below⟩
    have bound : (page.toNat - (layout.start inKernel).toNat) / 4096 <
        layout.count inKernel := by omega
    refine ⟨_, bound, UInt64.toNat_inj.mp ?_⟩
    rw [layout.page_toNat bound]
    omega

theorem nodup_pages (inKernel : Bool) : (layout.pages inKernel).Nodup := by
  refine List.Nodup.map_on ?_ List.nodup_range
  intro index bound index' bound' same
  have values := congrArg UInt64.toNat same
  rw [layout.page_toNat (List.mem_range.mp bound),
    layout.page_toNat (List.mem_range.mp bound')] at values
  omega

theorem aligned_of_mem
    {inKernel : Bool} {page : UInt64}
    (member : page ∈ layout.pages inKernel) : Aligned page :=
  (layout.mem_pages.mp member).1

theorem ne_zero_of_mem
    {inKernel : Bool} {page : UInt64}
    (member : page ∈ layout.pages inKernel) : page ≠ 0 := by
  rintro rfl
  have above := (layout.mem_pages.mp member).2.1
  have bounds := layout.bounds inKernel
  rw [UInt64.le_iff_toNat_le] at above
  simp only [UInt64.toNat_zero] at above
  omega

/-- No page belongs to both regions. -/
theorem eq_of_mem_pages
    {inKernel inKernel' : Bool} {page : UInt64}
    (member : page ∈ layout.pages inKernel)
    (member' : page ∈ layout.pages inKernel') : inKernel = inKernel' := by
  have disjoint : ∀ page, page ∈ layout.pages true →
      page ∉ layout.pages false := by
    intro page below above
    have below := (layout.mem_pages.mp below).2.2
    have above := (layout.mem_pages.mp above).2.1
    rw [UInt64.lt_iff_toNat_lt] at below
    rw [UInt64.le_iff_toNat_le] at above
    simp only [start, stop] at below above
    omega
  cases inKernel with
  | true =>
      cases inKernel' with
      | true => rfl
      | false => exact absurd member' (disjoint page member)
  | false =>
      cases inKernel' with
      | true => exact absurd member (disjoint page member')
      | false => rfl

theorem count_lt (inKernel : Bool) : layout.count inKernel < 2 ^ 31 := by
  have bounds := layout.bounds inKernel
  unfold count
  omega

end Layout

/-! ## Runs of the allocator -/

/-- Memory with the pages of each region that are allocated. -/
structure AllocRun where
  mem : State
  allocated : Bool → List UInt64

/-- What can happen between two observations of the allocator. -/
inductive AllocCall
  | alloc (inKernel : Bool)
  | free (page : UInt64) (inKernel : Bool)
  | overwrite

/-- Record a page that was handed out. -/
def AllocRun.hand (run : AllocRun) (mem : State) (inKernel : Bool)
    (page : UInt64) : AllocRun :=
  ⟨mem, if page = 0 then run.allocated else
    Function.update run.allocated inKernel (page :: run.allocated inKernel)⟩

/-- An address in a page that is not allocated. -/
def AllocRun.Free (layout : Layout) (run : AllocRun) (address : Nat) : Prop :=
  ∃ inKernel, ∃ page ∈ layout.pages inKernel,
    page ∉ run.allocated inKernel ∧ InPage address page

/-- Pages are freed to the region they came from, and memory outside the free
pages may change in any way. -/
inductive AllocStep (layout : Layout) :
    AllocRun → AllocCall → AllocRun → Prop
  | alloc {before : AllocRun} {inKernel : Bool} {page : UInt64}
      {after : State} :
      (pmemAlloc inKernel).Runs before.mem page after →
      AllocStep layout before (.alloc inKernel)
        (before.hand after inKernel page)
  | free {before : AllocRun} {page : UInt64} {inKernel : Bool}
      {after : State} :
      page ∈ before.allocated inKernel →
      (pmemFree page inKernel).Runs before.mem () after →
      AllocStep layout before (.free page inKernel)
        ⟨after, Function.update before.allocated inKernel
          ((before.allocated inKernel).erase page)⟩
  | overwrite {before : AllocRun} {bytes : Bytes} :
      (∀ address, before.Free layout address →
        bytes address = before.mem.bytes address) →
      AllocStep layout before .overwrite
        ⟨before.mem.setBytes bytes, before.allocated⟩

/-- Runs from `pmem_init` on, over any contents of memory. -/
def allocSystem (layout : Layout) : TransitionSystem AllocRun AllocCall where
  Init run := run.allocated = (fun _ => []) ∧
    ∃ before, (pmemInit layout.allocBegin).Runs before () run.mem
  Step := AllocStep layout

/-- The list of a region holds the pages that are not allocated, and the counter
their number.  A region without pages has no list. -/
structure Manages (layout : Layout) (run : AllocRun) (inKernel : Bool)
    (nodes : List UInt64) : Prop where
  start : (run.mem.region inKernel).start = layout.start inKernel
  stop : (run.mem.region inKernel).stop = layout.stop inKernel
  linked : layout.count inKernel ≠ 0 →
    Linked 0 run.mem.next (run.mem.region inKernel).listHead nodes
  counted : nodes.length = (run.mem.region inKernel).allocable.toNat
  complete : (nodes ++ run.allocated inKernel).Perm (layout.pages inKernel)

namespace Manages

variable {layout : Layout} {run : AllocRun} {inKernel : Bool}
variable {nodes : List UInt64}

theorem mem_pages
    (manages : Manages layout run inKernel nodes) {page : UInt64} :
    page ∈ layout.pages inKernel ↔
      page ∈ nodes ∨ page ∈ run.allocated inKernel := by
  rw [← manages.complete.mem_iff, List.mem_append]

theorem nodup (manages : Manages layout run inKernel nodes) :
    (nodes ++ run.allocated inKernel).Nodup :=
  manages.complete.nodup_iff.mpr (layout.nodup_pages inKernel)

theorem not_allocated
    (manages : Manages layout run inKernel nodes) {page : UInt64}
    (member : page ∈ nodes) : page ∉ run.allocated inKernel :=
  fun allocated => List.disjoint_of_nodup_append manages.nodup member allocated

/-- The counter says whether there is a free page. -/
theorem allocable_eq_zero
    (manages : Manages layout run inKernel nodes) :
    (run.mem.region inKernel).allocable = 0 ↔ nodes = [] := by
  rw [← UInt32.toNat_inj, ← manages.counted, UInt32.toNat_zero,
    List.length_eq_zero_iff]

/-- A region is managed alike when its data and the links of its free pages are
the same. -/
theorem congr
    (manages : Manages layout run inKernel nodes) {after : AllocRun}
    (sameRegion : after.mem.region inKernel = run.mem.region inKernel)
    (sameNext : ∀ page ∈ nodes, after.mem.next page = run.mem.next page)
    (sameAllocated : after.allocated inKernel = run.allocated inKernel) :
    Manages layout after inKernel nodes := by
  refine ⟨?_, ?_, fun some => ?_, ?_, ?_⟩
  · rw [sameRegion]
    exact manages.start
  · rw [sameRegion]
    exact manages.stop
  · rw [sameRegion]
    exact (manages.linked some).congr sameNext
  · rw [sameRegion]
    exact manages.counted
  · rw [sameAllocated]
    exact manages.complete

/-- Taking the first page of the list. -/
theorem alloc
    {page : UInt64} {rest : List UInt64}
    (manages : Manages layout run inKernel (page :: rest)) :
    Manages layout (run.hand (run.mem.setRegion inKernel
      ⟨(run.mem.region inKernel).start, (run.mem.region inKernel).stop,
        (run.mem.region inKernel).allocable - 1, run.mem.next page⟩) inKernel
        page) inKernel rest := by
  have member : page ∈ layout.pages inKernel :=
    manages.mem_pages.mpr (Or.inl List.mem_cons_self)
  have notZero := layout.ne_zero_of_mem member
  have counted := manages.counted
  rw [List.length_cons] at counted
  refine ⟨?_, ?_, fun some => ?_, ?_, ?_⟩
  · simpa [AllocRun.hand] using manages.start
  · simpa [AllocRun.hand] using manages.stop
  · obtain ⟨_, _, tail⟩ := manages.linked some
    simpa [AllocRun.hand] using tail
  · have positive : 1 ≤ (run.mem.region inKernel).allocable := by
      rw [UInt32.le_iff_toNat_le, ← counted]
      exact Nat.le_add_left 1 rest.length
    have one : (1 : UInt32).toNat = 1 := rfl
    simp only [AllocRun.hand, setRegion_region_self]
    rw [UInt32.toNat_sub_of_le _ _ positive, ← counted, one]
    omega
  · simp only [AllocRun.hand, if_neg notZero, Function.update_self]
    exact List.perm_middle.trans manages.complete

/-- Putting an allocated page in front of the list. -/
theorem free
    {page : UInt64}
    (manages : Manages layout run inKernel nodes)
    (allocated : page ∈ run.allocated inKernel) :
    Manages layout ⟨run.mem.giveBack page inKernel,
      Function.update run.allocated inKernel
        ((run.allocated inKernel).erase page)⟩ inKernel (page :: nodes) := by
  have member : page ∈ layout.pages inKernel :=
    manages.mem_pages.mpr (Or.inr allocated)
  have aligned := layout.aligned_of_mem member
  have bound := layout.count_lt inKernel
  have length := manages.complete.length_eq
  rw [List.length_append, Layout.pages, List.length_map,
    List.length_range] at length
  refine ⟨?_, ?_, fun some => ?_, ?_, ?_⟩
  · simpa [State.giveBack] using manages.start
  · simpa [State.giveBack] using manages.stop
  · refine ⟨by simp [State.giveBack], layout.ne_zero_of_mem member, ?_⟩
    have written : (run.mem.giveBack page inKernel).next page =
        (run.mem.region inKernel).listHead := by
      simp [State.giveBack, State.next, read64_write64]
    rw [written]
    refine (manages.linked some).congr fun node isFree => ?_
    have differs : node ≠ page := by
      rintro rfl
      exact manages.not_allocated isFree allocated
    have nodeAligned := layout.aligned_of_mem
      (manages.mem_pages.mpr (Or.inl isFree))
    simp only [State.giveBack, State.next, setRegion_bytes,
      State.setBytes_bytes]
    exact read64_write64_of_ne nodeAligned aligned differs _
  · have one : (1 : UInt32).toNat = 1 := rfl
    simp only [State.giveBack, setRegion_region_self, List.length_cons]
    rw [UInt32.toNat_add, one, ← manages.counted, Nat.mod_eq_of_lt]
    omega
  · simp only [Function.update_self]
    have moved := (List.perm_cons_erase allocated).append_left nodes
    exact (List.perm_middle.symm.trans moved.symm).trans manages.complete

end Manages

/-- Both regions are managed. -/
def Managed (layout : Layout) (run : AllocRun) : Prop :=
  ∀ inKernel, ∃ nodes, Manages layout run inKernel nodes

/-- A page of the other region. -/
theorem Managed.ne_of_allocated
    {layout : Layout} {run : AllocRun} {inKernel other : Bool}
    {nodes : List UInt64} {node page : UInt64}
    (managed : Managed layout run)
    (manages : Manages layout run other nodes) (isFree : node ∈ nodes)
    (allocated : page ∈ run.allocated inKernel) : node ≠ page := by
  rintro rfl
  obtain ⟨_, manages'⟩ := managed inKernel
  have same := layout.eq_of_mem_pages
    (manages.mem_pages.mpr (Or.inl isFree))
    (manages'.mem_pages.mpr (Or.inr allocated))
  subst same
  exact manages.not_allocated isFree allocated

/-- Every step keeps the regions managed. -/
theorem Managed.step
    {layout : Layout} {before after : AllocRun} {call : AllocCall}
    (managed : Managed layout before)
    (step : AllocStep layout before call after) :
    Managed layout after := by
  cases step with
  | @alloc inKernel page _ run =>
      rcases pmemAlloc_runs.mp run with
        ⟨_, rfl, rfl⟩ | ⟨notEmpty, rfl, rfl⟩
      · simpa [AllocRun.hand] using managed
      · intro other
        by_cases same : other = inKernel
        · subst same
          obtain ⟨nodes, manages⟩ := managed other
          cases nodes with
          | nil => exact absurd (manages.allocable_eq_zero.mpr rfl) notEmpty
          | cons first rest =>
              have some : layout.count other ≠ 0 := by
                have member := manages.mem_pages.mpr
                  (Or.inl List.mem_cons_self)
                intro none
                rw [Layout.pages, none] at member
                cases member
              obtain ⟨rfl, _⟩ := manages.linked some
              exact ⟨rest, manages.alloc⟩
        · obtain ⟨nodes, manages⟩ := managed other
          refine ⟨nodes, manages.congr ?_ (fun _ _ => by simp
            [AllocRun.hand]) ?_⟩
          · simp only [AllocRun.hand]
            exact setRegion_region_of_ne same _
          · simp only [AllocRun.hand]
            split
            · rfl
            · exact Function.update_of_ne same _ _
  | @free page inKernel _ allocated run =>
      obtain rfl := pmemFree_runs.mp run
      intro other
      by_cases same : other = inKernel
      · subst same
        obtain ⟨nodes, manages⟩ := managed other
        exact ⟨page :: nodes, manages.free allocated⟩
      · obtain ⟨nodes, manages⟩ := managed other
        obtain ⟨_, manages'⟩ := managed inKernel
        refine ⟨nodes, manages.congr ?_ (fun node isFree => ?_)
          (Function.update_of_ne same _ _)⟩
        · simp only [State.giveBack]
          exact setRegion_region_of_ne same _
        · simp only [State.giveBack, State.next, setRegion_bytes,
            State.setBytes_bytes]
          exact read64_write64_of_ne
            (layout.aligned_of_mem (manages.mem_pages.mpr (Or.inl isFree)))
            (layout.aligned_of_mem
              (manages'.mem_pages.mpr (Or.inr allocated)))
            (managed.ne_of_allocated manages isFree allocated) _
  | overwrite kept =>
      intro inKernel
      obtain ⟨nodes, manages⟩ := managed inKernel
      refine ⟨nodes, manages.congr rfl (fun node isFree => ?_) rfl⟩
      apply read64_congr
      intro index bound
      refine kept _ ⟨inKernel, node, manages.mem_pages.mpr (Or.inl isFree),
        manages.not_allocated isFree, ?_⟩
      unfold InPage
      omega

/-! ## Initialisation -/

/-- Consecutive pages. -/
def pagesFrom (first : UInt64) (count : Nat) : List UInt64 :=
  (List.range count).map fun index => first + UInt64.ofNat (4096 * index)

theorem pagesFrom_succ (first : UInt64) (count : Nat) :
    pagesFrom first (count + 1) = first :: pagesFrom (first + 4096) count := by
  unfold pagesFrom
  rw [List.range_succ_eq_map, List.map_cons, List.map_map]
  have next : ∀ index, first + UInt64.ofNat (4096 * (index + 1)) =
      first + 4096 + UInt64.ofNat (4096 * index) := by
    intro index
    rw [Nat.mul_succ, Nat.add_comm, UInt64.ofNat_add, ← UInt64.add_assoc]
    rfl
  have zero : first + UInt64.ofNat (4096 * 0) = first := UInt64.add_zero first
  rw [zero]
  simp only [Function.comp_def, Nat.succ_eq_add_one, next]

theorem linkPages_runs
    {remaining : Nat} {pageAddr : UInt64} {result : Unit}
    (positive : 0 < pageAddr.toNat)
    (bound : pageAddr.toNat + 4096 * remaining < 2 ^ 64)
    (run : (linkPages remaining pageAddr).Runs state result final) :
    (remaining ≠ 0 →
      Linked 0 final.next pageAddr (pagesFrom pageAddr remaining)) ∧
    ∃ bytes, final = state.setBytes bytes ∧ ∀ address,
      address < pageAddr.toNat ∨ pageAddr.toNat + 4096 * remaining ≤ address →
      bytes address = state.bytes address := by
  induction remaining generalizing pageAddr state with
  | zero =>
      simp only [linkPages, Program.runs_pure] at run
      exact ⟨fun none => absurd rfl none, state.bytes, run.2.symm,
        fun _ _ => rfl⟩
  | succ remaining inductionHypothesis =>
      simp only [linkPages, Program.runs_bind, runs_store] at run
      generalize stored : (if remaining = 0 then 0 else pageAddr + 4096) =
        link at run
      obtain ⟨_, _, rfl, rest⟩ := run
      have next : (pageAddr + 4096).toNat = pageAddr.toNat + 4096 := by
        rw [UInt64.toNat_add]
        show (pageAddr.toNat + 4096) % 2 ^ 64 = _
        omega
      obtain ⟨linked, bytes, rfl, outside⟩ := inductionHypothesis
        (by omega) (by omega) rest
      refine ⟨fun _ => ?_, bytes, rfl, fun address apart => ?_⟩
      · have written : ((state.setBytes (write64 state.bytes pageAddr.toNat
            link)).setBytes bytes).next pageAddr = link := by
          rw [← read64_write64 state.bytes pageAddr.toNat link]
          apply read64_congr
          intro index small
          exact outside _ (by omega)
        rw [pagesFrom_succ]
        refine ⟨rfl, fun zero => ?_, ?_⟩
        · rw [zero] at positive
          exact absurd positive (by decide)
        · rw [written]
          by_cases last : remaining = 0
          · rw [if_pos last] at stored
            rw [← stored, last]
            rfl
          · rw [if_neg last] at stored
            subst stored
            exact linked last
      · rw [outside address (by omega)]
        exact memmove_of_not_mem _ _ (by omega)

theorem pagesFrom_length (first : UInt64) (count : Nat) :
    (pagesFrom first count).length = count := by
  rw [pagesFrom, List.length_map, List.length_range]

theorem Layout.pages_eq (layout : Layout) (inKernel : Bool) :
    layout.pages inKernel =
      pagesFrom (layout.start inKernel) (layout.count inKernel) := rfl

/-- `pmem_init` puts every page on the list of its region. -/
theorem pmemInit_managed
    (layout : Layout) {before : State}
    (run : (pmemInit layout.allocBegin).Runs before () final) :
    Managed layout ⟨final, fun _ => []⟩ := by
  have kernBounds := layout.bounds true
  have userBounds := layout.bounds false
  have boundary := layout.boundary_toNat
  have pages : kernelPages = 2048 := rfl
  have last : allocEnd.toNat = 2281701376 := rfl
  have kernCount : layout.count true = 2048 := by
    simp only [Layout.count, Layout.start, Layout.stop]
    omega
  have userCount : ((allocEnd - layout.boundary) / 4096).toUInt32.toNat =
      layout.count false := by
    have below : layout.boundary ≤ allocEnd := by
      rw [UInt64.le_iff_toNat_le]
      exact userBounds.2.1
    have few := layout.count_lt false
    simp only [Layout.count, Layout.start, Layout.stop] at few ⊢
    rw [UInt64.toNat_toUInt32, UInt64.toNat_div,
      UInt64.toNat_sub_of_le _ _ below]
    exact Nat.mod_eq_of_lt (by
      show _ / 4096 < 2 ^ 32
      omega)
  simp only [pmemInit, Program.runs_bind, Program.runs_modify] at run
  have sameBoundary : layout.allocBegin +
      UInt64.ofNat (kernelPages * pgSize) = layout.boundary := rfl
  rw [sameBoundary] at run
  -- The numbers of pages are kept abstract: the loops run over them.
  generalize ((allocEnd - layout.boundary) / 4096).toUInt32 = userPages
    at run userCount
  generalize kernelPages = kernPages at run pages
  obtain ⟨_, _, linkKern, _, _, rfl, _, _, linkUser, rfl⟩ := run
  simp only [Layout.start, Layout.stop] at kernBounds userBounds
  have few := layout.count_lt false
  obtain ⟨kernLinked, _, rfl, _⟩ := linkPages_runs (by omega)
    (by omega) linkKern
  obtain ⟨userLinked, bytes, rfl, outside⟩ := linkPages_runs (by omega)
    (by omega) linkUser
  intro inKernel
  cases inKernel with
  | true =>
      refine ⟨layout.pages true, rfl, rfl, fun _ => ?_, ?_, ?_⟩
      · have linked := kernLinked (by omega)
        rw [layout.pages_eq, kernCount, ← pages]
        refine Linked.congr linked fun node member => ?_
        have isPage : node ∈ layout.pages true := by
          rw [layout.pages_eq, kernCount, ← pages]
          exact member
        have below := (layout.mem_pages.mp isPage).2.2
        have aligned : node.toNat % 4096 = 0 := layout.aligned_of_mem isPage
        rw [UInt64.lt_iff_toNat_lt] at below
        simp only [Layout.stop] at below
        simp only [setRegion_next]
        apply read64_congr
        intro index small
        exact outside _ (by omega)
      · rw [layout.pages_eq, kernCount, pagesFrom_length, ← pages]
        show kernPages = (UInt32.ofNat kernPages).toNat
        rw [pages]
        rfl
      · rw [List.append_nil]
  | false =>
      refine ⟨layout.pages false, rfl, rfl, fun some => ?_, ?_, ?_⟩
      · rw [← userCount] at some
        have linked := userLinked some
        rw [layout.pages_eq, ← userCount]
        simp only [setRegion_next]
        exact linked
      · rw [layout.pages_eq, ← userCount, pagesFrom_length]
        rfl
      · rw [List.append_nil]

theorem managed_of_reachable
    {layout : Layout} {run : AllocRun}
    (reachable : (allocSystem layout).Reachable run) :
    Managed layout run := by
  refine reachable.invariant ?_ ?_
  · rintro ⟨mem, _⟩ ⟨rfl, before, init⟩
    exact pmemInit_managed layout init
  · intro before call after managed _ step
    exact managed.step step

/-! ## Examples of layouts -/

theorem linkPages_total (remaining : Nat) (pageAddr : UInt64) (state : State) :
    ∃ final, (linkPages remaining pageAddr).Runs state () final := by
  induction remaining generalizing pageAddr state with
  | zero => exact ⟨state, by simp [linkPages]⟩
  | succ remaining inductionHypothesis =>
      obtain ⟨final, rest⟩ := inductionHypothesis (pageAddr + 4096)
        (state.setBytes (write64 state.bytes pageAddr.toNat
          (if remaining = 0 then 0 else pageAddr + 4096)))
      refine ⟨final, ?_⟩
      simp only [linkPages, Program.runs_bind, runs_store]
      exact ⟨(), _, rfl, rest⟩

/-- `pmem_init` returns, with all pages of the user region free. -/
theorem pmemInit_total (allocBegin : UInt64) (state : State) :
    ∃ final, (pmemInit allocBegin).Runs state () final ∧
      final.region false =
        ⟨allocBegin + UInt64.ofNat (kernelPages * pgSize), allocEnd,
          ((allocEnd - (allocBegin + UInt64.ofNat (kernelPages * pgSize))) /
            4096).toUInt32,
          allocBegin + UInt64.ofNat (kernelPages * pgSize)⟩ := by
  obtain ⟨middle, linkKern⟩ := linkPages_total kernelPages allocBegin state
  obtain ⟨last, linkUser⟩ := linkPages_total
    ((allocEnd - (allocBegin + UInt64.ofNat (kernelPages * pgSize))) /
      4096).toUInt32.toNat (allocBegin + UInt64.ofNat (kernelPages * pgSize))
    (middle.setRegion true ⟨allocBegin,
      allocBegin + UInt64.ofNat (kernelPages * pgSize),
      UInt32.ofNat kernelPages, allocBegin⟩)
  refine ⟨last.setRegion false _, ?_, setRegion_region_self false _⟩
  simp only [pmemInit, Program.runs_bind, Program.runs_modify]
  exact ⟨(), middle, linkKern, (), _, rfl, (), last, linkUser, rfl⟩

/-- The state of a machine before anything was initialised. -/
def emptyState : State :=
  ⟨fun _ => 0, ⟨0, 0, 0, 0⟩, ⟨0, 0, 0, 0⟩, 0⟩

/-- Memory that starts at the first page. -/
def firstLayout : Layout where
  allocBegin := 0x80000000
  aligned := by decide
  low := by decide
  room := by decide

/-- Memory with no page but those of the kernel. -/
def fullLayout : Layout where
  allocBegin := 0x87800000
  aligned := by decide
  low := by decide
  room := by decide

end Mem
end WhuOs
