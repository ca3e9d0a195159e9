import WhuOs.Mem.Growth
import WhuOs.Process.Forks

/-!
# Moving the top of the heap

`sys_brk` passes the 64-bit difference of the two tops as a 32-bit length, and
it compares the tops after pages were mapped.  It does not know where the heap
starts.
-/

namespace WhuOs
namespace Process

open Library
open Library.Bytes
open Mem
open Program (Runs)

/-! ## Failed calls -/

/-- A call of `sys_brk` that fails changes nothing, and one that succeeds has
mapped the pages between the two tops. -/
structure BrkSafe (state final : State) (curr : Pid) (newBrk result : UInt64) :
    Prop where
  heapTop : result = failed →
    (final.procs curr).heapTop = (state.procs curr).heapTop
  translations : result = failed → ∀ va,
    translate final.mem.bytes (state.procs curr).pgtbl va =
      translate state.mem.bytes (state.procs curr).pgtbl va
  pages : result = failed → ∀ page,
    OnFreeList final.mem false page ↔ OnFreeList state.mem false page
  mapped : result = newBrk → ∀ va,
    pageAlign (state.procs curr).heapTop ≤ va → va < pageAlign newBrk →
    translate final.mem.bytes (state.procs curr).pgtbl va ≠ none

/-- The pages that a request makes `uvm_heap_grow` map. -/
def requestedPages (heapTop newBrk : UInt64) : Nat :=
  heapPages heapTop (heapTop + (newBrk - heapTop).toUInt32.toUInt64)

/-- When a call of `sys_brk` is safe, by the pages of the user region that are
left: a request that can be met must have a difference below `2 ^ 32` unless it
needs no page, and one that cannot be met must not map pages over others before
it runs out of pages. -/
def BrkHarmless (state : State) (curr : Pid) (newBrk : UInt64) (left : Nat) :
    Prop :=
  newBrk ≠ 0 → (state.procs curr).heapTop < newBrk →
    (requestedPages (state.procs curr).heapTop newBrk ≤ left →
      newBrk.toNat - (state.procs curr).heapTop.toNat < 2 ^ 32 ∨
        requestedPages (state.procs curr).heapTop newBrk = 0) ∧
    (left < requestedPages (state.procs curr).heapTop newBrk →
      ∀ va, pageAlign (state.procs curr).heapTop ≤ va →
        va.toNat < (pageAlign (state.procs curr).heapTop).toNat + 4096 * left →
        translate state.mem.bytes (state.procs curr).pgtbl va = none)

theorem sub_toUInt32_toNat
    {larger smaller : UInt64} (ordered : smaller < larger) :
    (larger - smaller).toUInt32.toNat =
      (larger.toNat - smaller.toNat) % 2 ^ 32 := by
  have order := UInt64.lt_iff_toNat_lt.mp ordered
  rw [UInt64.toNat_toUInt32, UInt64.toNat_sub_of_le]
  rw [UInt64.le_iff_toNat_le]
  omega

/-- Whether a request fits into the length of `uvm_heap_grow`. -/
theorem request_fits
    {heapTop newBrk : UInt64} (low : heapTop.toNat ≤ 2 ^ 38)
    (grows : heapTop < newBrk) :
    heapTop + (newBrk - heapTop).toUInt32.toUInt64 = newBrk ↔
      newBrk.toNat - heapTop.toNat < 2 ^ 32 := by
  have order := UInt64.lt_iff_toNat_lt.mp grows
  have sum := newTop_toNat low (newBrk - heapTop).toUInt32
  rw [sub_toUInt32_toNat grows] at sum
  rw [← UInt64.toNat_inj, sum]
  omega

section Failed

variable {ρ : Type} [DecidableEq ρ] {root : ρ → UInt64} {r : ρ}
  {state final : State} {free free' : Bool → List UInt64} {curr : Pid}
  {newBrk result newTop : UInt64} {mem : Mem.State} {dropped : List Nat}

theorem vaMax_toNat : vaMax.toNat = 2 ^ 38 := rfl

theorem failed_toNat : failed.toNat = 2 ^ 64 - 1 := rfl

/-- A call that changes nothing. -/
theorem BrkSafe.of_unchanged
    (isFailed : result = failed) (low : (state.procs curr).heapTop < vaMax)
    (heapTop : (final.procs curr).heapTop = (state.procs curr).heapTop)
    (translations : ∀ va,
      translate final.mem.bytes (state.procs curr).pgtbl va =
        translate state.mem.bytes (state.procs curr).pgtbl va)
    (pages : ∀ page,
      OnFreeList final.mem false page ↔ OnFreeList state.mem false page) :
    BrkSafe state final curr newBrk result := by
  refine ⟨fun _ => heapTop, fun _ => translations, fun _ => pages,
    fun isBrk va _ below => ?_⟩
  -- the round-up of the largest address is 0
  rw [← isBrk, isFailed] at below
  exact absurd below UInt64.not_lt_zero

/-- A call that returns a top of the heap. -/
theorem BrkSafe.of_returns
    (small : result.toNat < 2 ^ 64 - 1)
    (mapped : result = newBrk → ∀ va,
      pageAlign (state.procs curr).heapTop ≤ va → va < pageAlign newBrk →
      translate final.mem.bytes (state.procs curr).pgtbl va ≠ none) :
    BrkSafe state final curr newBrk result := by
  have notFailed : result ≠ failed := by
    rintro rfl
    rw [failed_toNat] at small
    exact absurd small (Nat.lt_irrefl _)
  exact ⟨fun isFailed => absurd isFailed notFailed,
    fun isFailed => absurd isFailed notFailed,
    fun isFailed => absurd isFailed notFailed, mapped⟩

variable (lists : FreeLists state.mem free)
  (tables : Tables state.mem.bytes root free) (present : root r ≠ 0)
  (isRoot : root r = (state.procs curr).pgtbl)
  (low : (state.procs curr).heapTop < vaMax)

include lists tables present isRoot low

/-- A call of `sys_brk` that fails after all pages were mapped. -/
theorem brkSafe_of_mapped
    {pages : List UInt64}
    (count : pages.length = requestedPages (state.procs curr).heapTop newBrk)
    (filled : Filled root r state.mem free (heapPieces
      ((pageAlign (state.procs curr).heapTop).toNat / 4096) pages) [] mem
      free') :
    BrkSafe state (state.setMem mem) curr newBrk failed ↔
      requestedPages (state.procs curr).heapTop newBrk = 0 := by
  rw [← count]
  cases pages with
  | nil =>
      refine ⟨fun _ => rfl, fun _ => .of_unchanged rfl low rfl (fun va => ?_)
        fun page => ?_⟩
      · rw [← isRoot]
        exact filled.translate_gone tables (fun _ => nofun) present va
      · show OnFreeList mem false page ↔ _
        rw [filled.lists.onFreeList_iff, lists.onFreeList_iff]
        exact filled.mem_free page
  | cons page rest =>
      refine ⟨fun safe => ?_, nofun⟩
      have member : heapPiece _ page ∈ heapPieces
          ((pageAlign (state.procs curr).heapTop).toNat / 4096)
          (page :: rest) := List.mem_cons_self
      have wasFree := filled.mem_free_of_piece member
      have same := (safe.pages rfl page).mpr (lists.onFreeList_iff.mpr wasFree)
      exact absurd (filled.lists.onFreeList_iff.mp same)
        ((filled.taken_piece lists member).notFree false)

/-- A call of `sys_brk` that fails after pages were given back. -/
theorem brkSafe_of_rolledBack
    {left : Nat}
    (below : (pageAlign (state.procs curr).heapTop).toNat + 4096 * left ≤
      2 ^ 38)
    (filled : Filled root r state.mem free [] dropped mem free')
    (members : ∀ vpn, vpn ∈ dropped ↔
      (pageAlign (state.procs curr).heapTop).toNat / 4096 ≤ vpn ∧
        vpn < (pageAlign (state.procs curr).heapTop).toNat / 4096 + left) :
    BrkSafe state (state.setMem mem) curr newBrk failed ↔
      ∀ va, pageAlign (state.procs curr).heapTop ≤ va →
        va.toNat < (pageAlign (state.procs curr).heapTop).toNat + 4096 * left →
        translate state.mem.bytes (state.procs curr).pgtbl va = none := by
  have aligned := aligned_pageAlign (state.procs curr).heapTop
  unfold Aligned at aligned
  constructor
  · intro safe va atLeast less
    rw [UInt64.le_iff_toNat_le] at atLeast
    have canonical : Canonical va := Or.inl (by omega)
    have isDropped : pageOf va ∈ dropped := by
      rw [members]
      unfold pageOf
      omega
    rw [← safe.translations rfl va, ← isRoot]
    show translate mem.bytes (root r) va = none
    rw [translate_eq filled.tables present, if_pos canonical,
      filled.gone va isDropped List.not_mem_nil]
    unfold leafOf
    rw [not_isValid_zero]
    rfl
  · intro unmapped
    refine .of_unchanged rfl low rfl (fun va => ?_) fun page => ?_
    · rw [← isRoot] at unmapped ⊢
      refine filled.translate_gone tables (fun va' isDropped => ?_) present va
      obtain ⟨atLeast, less⟩ := (members _).mp isDropped
      refine not_isValid_of_translate tables present (by omega)
        (fun va isVa => unmapped va ?_ ?_) va' rfl
      · rw [UInt64.le_iff_toNat_le, isVa]
        omega
      · rw [isVa]
        omega
    · show OnFreeList mem false page ↔ _
      rw [filled.lists.onFreeList_iff, lists.onFreeList_iff]
      exact filled.mem_free page

/-- A call of `sys_brk` is safe exactly when its request is harmless. -/
theorem brkSafe_iff
    (run : (sysBrk curr newBrk).Runs state result final) :
    BrkSafe state final curr newBrk result ↔
      BrkHarmless state curr newBrk (free false).length := by
  have low' := UInt64.lt_iff_toNat_lt.mp low
  rw [vaMax_toNat] at low'
  cases sysBrk_outcome run with
  | same isSame =>
      have safe : BrkSafe state state curr newBrk
          (state.procs curr).heapTop := by
        refine .of_returns (by omega) fun isBrk va atLeast below => ?_
        rw [isBrk] at atLeast
        exact absurd (UInt64.lt_of_lt_of_le below atLeast)
          (UInt64.lt_irrefl _)
      refine ⟨fun _ proper grows => ?_, fun _ => safe⟩
      rcases isSame with zero | isTop
      · exact absurd zero proper
      · rw [isTop] at grows
        exact absurd grows (UInt64.lt_irrefl _)
  | failed proper grows grow differs =>
      rw [← isRoot] at grow
      have fits := request_fits (Nat.le_of_lt low') grows
      rcases heapGrow_runs lists tables present (Nat.le_of_lt low') grow with
        ⟨rfl, enough, _, free', filled⟩ |
          ⟨_, few, below, free', dropped, filled, members⟩
      · have count : ((free false).take (requestedPages
            (state.procs curr).heapTop newBrk)).length =
              requestedPages (state.procs curr).heapTop newBrk := by
          rw [List.length_take]
          exact Nat.min_eq_left enough
        rw [brkSafe_of_mapped lists tables present isRoot low count filled]
        constructor
        · exact fun none _ _ => ⟨fun _ => Or.inr none,
            fun few => absurd few (Nat.not_lt.mpr enough)⟩
        · intro harmless
          rcases (harmless proper grows).1 enough with small | none
          · exact absurd (fits.mpr small) differs
          · exact none
      · rw [brkSafe_of_rolledBack lists tables present isRoot low below filled
          members]
        constructor
        · exact fun unmapped _ _ => ⟨fun enough =>
            absurd few (Nat.not_lt.mpr enough), fun _ => unmapped⟩
        · exact fun harmless => (harmless proper grows).2 few
  | @grown mem proper grows grow =>
      rw [← isRoot] at grow
      have fits := request_fits (Nat.le_of_lt low') grows
      rcases heapGrow_runs lists tables present (Nat.le_of_lt low') grow with
        ⟨isSum, enough, belowMax, free', filled⟩ | ⟨same, _⟩
      · have small := fits.mp isSum.symm
        refine ⟨fun _ _ _ => ⟨fun _ => Or.inl small,
          fun few => absurd few (Nat.not_lt.mpr enough)⟩, fun _ => ?_⟩
        refine .of_returns (by omega) fun _ va atLeast below => ?_
        have range := heapRange_grow (Nat.le_of_lt low')
          (newBrk - (state.procs curr).heapTop).toUInt32
        have ends := range.ends
        rw [← isSum] at ends belowMax
        rw [UInt64.le_iff_toNat_le] at atLeast
        rw [UInt64.lt_iff_toNat_lt] at below
        have count : ((free false).take (heapPages (state.procs curr).heapTop
            ((state.procs curr).heapTop + (newBrk -
              (state.procs curr).heapTop).toUInt32.toUInt64))).length =
            heapPages (state.procs curr).heapTop newBrk := by
          rw [List.length_take, Nat.min_eq_left enough, ← isSum]
        obtain ⟨page, _, isMapped⟩ := filled.translate_heap lists present
          (aligned_pageAlign _) (by rw [count]; omega) atLeast
          (by rw [count]; omega)
        rw [← isRoot]
        show translate mem.bytes (root r) va ≠ none
        rw [isMapped]
        exact Option.some_ne_none _
      · rw [same] at grows
        exact absurd grows (UInt64.lt_irrefl _)
  | shrunk proper shrinks ungrow =>
      have smaller := UInt64.le_iff_toNat_le.mp (heapUngrow_le ungrow)
      refine ⟨fun _ _ grows => absurd grows (UInt64.lt_asymm shrinks),
        fun _ => .of_returns (by omega) fun isBrk va atLeast below => ?_⟩
      have first := pageAlign_toNat
        (show (state.procs curr).heapTop.toNat + 4095 < 2 ^ 64 by omega)
      rw [UInt64.lt_iff_toNat_lt] at shrinks
      have stop := pageAlign_toNat
        (show newBrk.toNat + 4095 < 2 ^ 64 by omega)
      rw [UInt64.le_iff_toNat_le] at atLeast
      rw [UInt64.lt_iff_toNat_lt] at below
      omega

end Failed

/-- Regions with the same free pages have the same counter. -/
theorem allocable_of_same
    {mem mem' : Mem.State} {free free' : Bool → List UInt64}
    (lists : FreeLists mem free) (lists' : FreeLists mem' free')
    {inKernel : Bool} (same : ∀ page,
      OnFreeList mem' inKernel page ↔ OnFreeList mem inKernel page) :
    (mem'.region inKernel).allocable = (mem.region inKernel).allocable := by
  have perm : (free' inKernel).Perm (free inKernel) := by
    refine (List.perm_ext_iff_of_nodup (lists'.nodup inKernel)
      (lists.nodup inKernel)).mpr fun page => ?_
    rw [← lists'.onFreeList_iff, ← lists.onFreeList_iff]
    exact same page
  apply UInt32.toNat.inj
  rw [← lists'.counted, ← lists.counted, perm.length_eq]

/-- The first process calls `sys_brk`. -/
def smallBrk (newBrk : UInt64) : ProcM (State × UInt64) := do
  procMakeFirst smallBoot
  let before ← Program.get
  Program.assert ((before.procs 0).state ≠ .unused) "not alive"
  let result ← sysBrk 0 newBrk
  return (before, result)

/-- A run of `smallBrk` goes through an initial state. -/
theorem smallBrk_runs
    {newBrk : UInt64} {outcome : State × UInt64} {final : State}
    (run : (smallBrk newBrk).Runs smallState outcome final) :
    forkSystem.Init outcome.1 ∧
      (outcome.1.procs procZero).state ≠ .unused ∧
      (sysBrk procZero newBrk).Runs outcome.1 outcome.2 final := by
  simp only [smallBrk, Program.runs_bind, Program.runs_get,
    Program.runs_assert, Program.runs_pure, decide_eq_true_eq] at run
  obtain ⟨_, before, makes, _, _, ⟨rfl, rfl⟩, _, _, ⟨isUsed, rfl⟩, result, _,
    brk, rfl, rfl⟩ := run
  exact ⟨⟨smallBoot, smallState, booted_smallState, makes⟩, isUsed, brk⟩

/-- A request that is `2 ^ 32` and one page above the top fails and takes a
page. -/
theorem smallBrk_fails :
    ((smallBrk 0x100004000).exec smallState).toOption.map (fun outcome =>
      (outcome.1.2, (outcome.1.1.mem.region false).allocable,
        (outcome.2.mem.region false).allocable)) =
      some (failed, 20, 19) := by
  decide +kernel

/-- A failed call of `sys_brk` may leave the heap larger than it was. -/
theorem brk_failure_grows :
    ¬∀ state final curr newBrk result, forkSystem.Reachable state →
      (state.procs curr).state ≠ .unused →
      (sysBrk curr newBrk).Runs state result final →
      BrkSafe state final curr newBrk result := by
  intro safe
  have fails := smallBrk_fails
  cases outcome : (smallBrk 0x100004000).exec smallState with
  | error message =>
      rw [outcome] at fails
      cases fails
  | ok values =>
      rw [outcome] at fails
      obtain ⟨⟨before, result⟩, final⟩ := values
      obtain ⟨initial, isUsed, run⟩ := smallBrk_runs outcome
      have reachable : forkSystem.Reachable before := .init initial
      obtain ⟨isFailed, old, new⟩ : result = failed ∧
          (before.mem.region false).allocable = 20 ∧
          (final.mem.region false).allocable = 19 := by
        have parts := Option.some.inj fails
        exact ⟨congrArg (·.1) parts, congrArg (·.2.1) parts,
          congrArg (·.2.2) parts⟩
      obtain ⟨free, held, holds⟩ := ForksHold.of_reachable reachable
      obtain ⟨free', held', holds'⟩ := holds.brk isUsed run
      have same := allocable_of_same holds.user.lists holds'.user.lists
        ((safe _ _ _ _ _ reachable isUsed run).pages isFailed)
      rw [old, new] at same
      exact absurd same (by decide)

/-- A request for one page is met. -/
theorem smallBrk_grows :
    ((smallBrk 16384).exec smallState).toOption.map (fun outcome =>
      ((outcome.1.1.procs procZero).heapTop,
        (outcome.1.1.mem.region false).allocable)) = some (12288, 20) := by
  decide +kernel

theorem brkSafe_iff_small :
    ∃ state final result, (sysBrk procZero 16384).Runs state result final ∧
      BrkSafe state final procZero 16384 result := by
  have grows := smallBrk_grows
  cases outcome : (smallBrk 16384).exec smallState with
  | error message =>
      rw [outcome] at grows
      cases grows
  | ok values =>
      rw [outcome] at grows
      obtain ⟨⟨before, result⟩, final⟩ := values
      obtain ⟨initial, isUsed, run⟩ := smallBrk_runs outcome
      have isTop : (before.procs procZero).heapTop = 12288 :=
        congrArg (·.1) (Option.some.inj grows)
      have left : (before.mem.region false).allocable = 20 :=
        congrArg (·.2) (Option.some.inj grows)
      obtain ⟨free, held, holds⟩ := ForksHold.of_reachable (.init initial)
      refine ⟨before, final, result, run, (brkSafe_iff holds.user.lists
        holds.user.tables (holds.used procZero isUsed).1 rfl ?_ run).mpr ?_⟩
      · show (before.procs procZero).heapTop < vaMax
        rw [isTop]
        decide
      · intro _ _
        rw [holds.user.lists.counted, left, isTop]
        exact ⟨fun _ => Or.inl (by decide), fun few => absurd few (by decide)⟩

/-! ## The code page -/

/-- The virtual address of the code of a process. -/
def codeVa : UInt64 := 4096

theorem pageOf_codeVa : pageOf codeVa = 1 := rfl

theorem codeVa_toNat : codeVa.toNat = 4096 := rfl

/-- The 32-bit length of `uvm_heap_ungrow` is enough for a heap that fits into
the memory. -/
theorem heapUngrow_newBrk
    {pgtbl heapTop newBrk newTop : UInt64} {mem mem' : Mem.State}
    (low : heapTop.toNat ≤ 2 ^ 30) (shrinks : newBrk < heapTop)
    (run : (uvmHeapUngrow pgtbl heapTop (heapTop - newBrk).toUInt32).Runs mem
      newTop mem') : newTop = newBrk := by
  rw [uvmHeapUngrow, Program.runs_bind] at run
  obtain ⟨_, _, _, run⟩ := run
  obtain ⟨rfl, _⟩ := Program.runs_pure.mp run
  have order := UInt64.lt_iff_toNat_lt.mp shrinks
  have len : (heapTop - newBrk).toUInt32.toUInt64 = heapTop - newBrk := by
    apply UInt64.toNat.inj
    rw [UInt32.toNat_toUInt64, sub_toUInt32_toNat shrinks,
      UInt64.toNat_sub_of_le _ _ (UInt64.le_of_lt shrinks)]
    omega
  have rest : heapTop - (heapTop - newBrk) = newBrk := by
    apply UInt64.toNat.inj
    rw [UInt64.toNat_sub_of_le, UInt64.toNat_sub_of_le _ _
      (UInt64.le_of_lt shrinks)]
    · omega
    · rw [UInt64.le_iff_toNat_le,
        UInt64.toNat_sub_of_le _ _ (UInt64.le_of_lt shrinks)]
      omega
  rw [len, rest, if_neg (UInt64.lt_asymm shrinks)]

/-- Writing back the top of the heap changes nothing. -/
theorem setProc_same (state : State) (mem : Mem.State) (curr : Pid) :
    (state.setMem mem).setProc curr ((state.procs curr).setHeapTop
      (state.procs curr).heapTop) = state.setMem mem := by
  unfold State.setProc
  rw [show (state.procs curr).setHeapTop (state.procs curr).heapTop =
    (state.setMem mem).procs curr from rfl, Function.update_eq_self]

/-- The code of every process is mapped below the top of its heap. -/
structure CodeMapped (state : State) : Prop where
  below : ∀ slot, (state.procs slot).state ≠ .unused →
    4096 < (state.procs slot).heapTop.toNat
  valid : ∀ slot, (state.procs slot).state ≠ .unused →
    isValid (pteAt state.mem.bytes (pgtbls state slot) codeVa) = true

/-- Processes stay, and so do the entries of their code pages. -/
structure CodeKept (before after : State) : Prop where
  used : ∀ slot, (before.procs slot).state ≠ .unused →
    (after.procs slot).state ≠ .unused
  pgtbl : ∀ slot, (before.procs slot).state ≠ .unused →
    pgtbls after slot = pgtbls before slot
  pte : ∀ slot, (before.procs slot).state ≠ .unused →
    pteAt after.mem.bytes (pgtbls before slot) codeVa =
      pteAt before.mem.bytes (pgtbls before slot) codeVa

/-- A call that does not ask for a heap that ends below the code: the argument
of `sys_brk` is 0 or above the first byte of the code page. -/
def SparesCode (_ : State) : Pid × ForkCall → Prop
  | (_, .brk newBrk) => newBrk = 0 ∨ codeVa < newBrk
  | _ => True

theorem CodeKept.refl {state : State} : CodeKept state state :=
  ⟨fun _ isUsed => isUsed, fun _ _ => rfl, fun _ _ => rfl⟩

theorem CodeKept.trans
    {before middle after : State} (first : CodeKept before middle)
    (second : CodeKept middle after) : CodeKept before after := by
  refine ⟨fun slot isUsed => second.used slot (first.used slot isUsed),
    fun slot isUsed => ?_, fun slot isUsed => ?_⟩
  · rw [second.pgtbl slot (first.used slot isUsed), first.pgtbl slot isUsed]
  · rw [← first.pgtbl slot isUsed, second.pte slot (first.used slot isUsed),
      first.pgtbl slot isUsed, first.pte slot isUsed]

namespace CodeMapped

variable {state final : State} {free free' : Bool → List UInt64}
  {held held' : Holder Pid → UInt64} {curr : Pid} {mem : Mem.State}

/-- Pages above the code of one process are worked on, and the top of its heap
is moved. -/
theorem touch
    (mapped : CodeMapped state) {pages : Nat → Prop}
    (touches : Touches (pgtbls state) curr pages state.mem held mem held')
    (spared : ¬pages 1) {heapTop : UInt64} (below : 4096 < heapTop.toNat) :
    CodeMapped ((state.setMem mem).setProc curr
        ((state.procs curr).setHeapTop heapTop)) ∧
      CodeKept state ((state.setMem mem).setProc curr
        ((state.procs curr).setHeapTop heapTop)) := by
  have self := @setProc_procs_self (state.setMem mem) curr
    ((state.procs curr).setHeapTop heapTop)
  have others : ∀ slot, slot ≠ curr → ((state.setMem mem).setProc curr
      ((state.procs curr).setHeapTop heapTop)).procs slot =
        state.procs slot :=
    fun slot differs => setProc_procs_of_ne differs _
  have stays : ∀ slot, (((state.setMem mem).setProc curr
      ((state.procs curr).setHeapTop heapTop)).procs slot).state =
        (state.procs slot).state := by
    intro slot
    by_cases same : slot = curr
    · rw [same, self]
      rfl
    · rw [others slot same]
  have roots : pgtbls ((state.setMem mem).setProc curr
      ((state.procs curr).setHeapTop heapTop)) = pgtbls state := by
    funext slot
    unfold pgtbls
    by_cases same : slot = curr
    · rw [same, self]
      rfl
    · rw [others slot same]
  have ptes : ∀ slot, pteAt mem.bytes (pgtbls state slot) codeVa =
      pteAt state.mem.bytes (pgtbls state slot) codeVa :=
    fun slot => touches.ptes slot codeVa fun both => spared both.2
  refine ⟨⟨fun slot isUsed => ?_, fun slot isUsed => ?_⟩,
    fun slot isUsed => ?_, fun slot _ => by rw [roots], fun slot _ => ptes slot⟩
  · rw [stays] at isUsed
    by_cases same : slot = curr
    · rw [same, self]
      exact below
    · rw [others slot same]
      exact mapped.below slot isUsed
  · rw [stays] at isUsed
    rw [roots]
    exact (congrArg isValid (ptes slot)).trans (mapped.valid slot isUsed)
  · rw [stays]
    exact isUsed

/-- `proc_fork` copies the code page. -/
theorem fork
    (mapped : CodeMapped state) (holds : ForksHold state free held)
    (isUsed : (state.procs curr).state ≠ .unused) {pid : Int}
    (run : (procFork curr).Runs state pid final) :
    CodeMapped final ∧ CodeKept state final := by
  rcases (holds.fork_outcome isUsed run).2 with
    ⟨_, kept⟩ | ⟨child, unused, _, forked⟩
  · have wasUsed : ∀ slot, (final.procs slot).state ≠ .unused →
        (state.procs slot).state ≠ .unused :=
      fun slot isUsed isUnused => isUsed (kept.unused slot isUnused)
    have roots : ∀ slot, (state.procs slot).state ≠ .unused →
        pgtbls final slot = pgtbls state slot :=
      fun slot isUsed => congrArg Proc.pgtbl (kept.procs slot isUsed)
    refine ⟨⟨fun slot isUsed => ?_, fun slot isUsed => ?_⟩,
      fun slot isUsed => ?_, roots, fun slot _ => kept.ptes slot codeVa⟩
    · rw [kept.procs slot (wasUsed slot isUsed)]
      exact mapped.below slot (wasUsed slot isUsed)
    · rw [roots slot (wasUsed slot isUsed), kept.ptes]
      exact mapped.valid slot (wasUsed slot isUsed)
    · rw [kept.procs slot isUsed]
      exact isUsed
  · have isUnused : (state.procs child).state = .unused := by
      simpa using List.find?_some unused
    have differs : ∀ slot, (state.procs slot).state ≠ .unused →
        slot ≠ child := by
      rintro slot isUsed rfl
      exact isUsed isUnused
    have others := forked.others
    have roots : ∀ slot, slot ≠ child → pgtbls final slot = pgtbls state slot :=
      fun slot isOther => congrArg Proc.pgtbl (others slot isOther)
    have ptes := fun slot isOther => forked.memory.ptes slot codeVa isOther
    refine ⟨⟨fun slot isUsed' => ?_, fun slot isUsed' => ?_⟩,
      fun slot isUsed' => ?_, fun slot isUsed' => roots slot (differs _ isUsed'),
      fun slot isUsed' => ptes slot (differs _ isUsed')⟩
    · by_cases same : slot = child
      · rw [same, forked.heapTop]
        exact mapped.below curr isUsed
      · rw [others slot same] at isUsed' ⊢
        exact mapped.below slot isUsed'
    · by_cases same : slot = child
      · subst same
        exact (forked.memory.copies codeVa (by decide)
          (Or.inl (mapped.below curr isUsed)) (mapped.valid curr isUsed)).valid
      · rw [others slot same] at isUsed'
        rw [roots slot same, ptes slot same]
        exact mapped.valid slot isUsed'
    · rw [others slot (differs _ isUsed')]
      exact isUsed'

/-- A call of `sys_brk` that spares the code. -/
theorem brk
    (mapped : CodeMapped state) (holds : ForksHold state free held)
    (isUsed : (state.procs curr).state ≠ .unused) {newBrk result : UInt64}
    (spares : newBrk = 0 ∨ codeVa < newBrk)
    (run : (sysBrk curr newBrk).Runs state result final) :
    CodeMapped final ∧ CodeKept state final := by
  have low := holds.low curr isUsed
  have present := (holds.used curr isUsed).1
  have below := mapped.below curr isUsed
  have first := pageAlign_toNat
    (show (state.procs curr).heapTop.toNat + 4095 < 2 ^ 64 by omega)
  cases sysBrk_outcome run with
  | same _ => exact ⟨mapped, .refl⟩
  | @failed newTop mem _ _ grow _ =>
      obtain ⟨_, _, _, touches, _⟩ := holds.user.heapGrow present low grow
      have touched := mapped.touch touches (fun inside => by
        have := inside.1
        omega) below
      rw [setProc_same] at touched
      exact touched
  | grown _ grows grow =>
      obtain ⟨_, _, _, touches, _⟩ := holds.user.heapGrow present low grow
      refine mapped.touch touches (fun inside => ?_) ?_
      · have := inside.1
        omega
      · rw [UInt64.lt_iff_toNat_lt] at grows
        omega
  | shrunk proper shrinks ungrow =>
      have isBrk := heapUngrow_newBrk low shrinks ungrow
      subst isBrk
      obtain ⟨_, _, _, touches, _⟩ := holds.user.heapUngrow present low ungrow
      have above := spares.resolve_left proper
      rw [UInt64.lt_iff_toNat_lt, codeVa_toNat] at above
      rw [UInt64.lt_iff_toNat_lt] at shrinks
      have newFirst := pageAlign_toNat
        (show result.toNat + 4095 < 2 ^ 64 by omega)
      refine mapped.touch touches (fun inside => ?_) above
      have := inside.1
      omega

/-- A process computes. -/
theorem compute
    (mapped : CodeMapped state) (holds : ForksHold state free held)
    (isUsed : (state.procs curr).state ≠ .unused) {page : UInt64}
    (own : OwnPage state curr page) {bytes : Bytes}
    (changed : ChangedIn page state.mem.bytes bytes) :
    CodeMapped (state.setMem (state.mem.setBytes bytes)) ∧
      CodeKept state (state.setMem (state.mem.setBytes bytes)) := by
  obtain ⟨holder, rfl, some⟩ := holds.ownPage_held isUsed own
  have kept := holds.user.pteAt_write some changed
  refine ⟨⟨mapped.below, fun slot isUsed' => ?_⟩, fun _ isUsed' => isUsed',
    fun _ _ => rfl, fun slot _ => kept slot codeVa⟩
  exact (congrArg isValid (kept slot codeVa)).trans (mapped.valid slot isUsed')

/-- The first process after `proc_make_first`. -/
theorem first
    {boot : BootData} (booted : Booted state)
    (run : (procMakeFirst boot).Runs state () final) :
    CodeMapped final := by
  obtain ⟨_, _, holds, code, only⟩ := ForksHold.first booted run
  refine ⟨fun slot isUsed => ?_, fun slot isUsed => ?_⟩
  · rw [(only slot isUsed).2]
    decide
  · rw [(only slot isUsed).1]
    have backed := (holds.user.backed procZero codeVa (by decide)).1
    by_contra invalid
    rw [entryPage, if_neg invalid] at backed
    exact code backed

/-- One step that spares the code. -/
theorem step
    (mapped : CodeMapped state) (holds : ForksHold state free held)
    {action : Pid × ForkCall} (spares : SparesCode state action)
    (step : ForkStep state action final) :
    (∃ free' held', ForksHold final free' held') ∧ CodeMapped final ∧
      CodeKept state final := by
  cases step with
  | fork isUsed run =>
      exact ⟨(holds.fork isUsed run).1, mapped.fork holds isUsed run⟩
  | brk isUsed run =>
      exact ⟨holds.brk isUsed run, mapped.brk holds isUsed spares run⟩
  | compute isUsed own changed =>
      exact ⟨⟨free, held, holds.compute isUsed own changed⟩,
        mapped.compute holds isUsed own changed⟩

end CodeMapped

/-- Runs that go on from a state. -/
def forksFrom (start : State) : TransitionSystem State (Pid × ForkCall) where
  Init state := state = start
  Step := ForkStep

/-- A process lives on, its code is mapped to the same page with the same flags,
and that page is in no list of free pages. -/
structure CodeStays (start final : State) (slot : Pid) : Prop where
  used : (final.procs slot).state ≠ .unused
  mapped : ∃ page flags,
    translate start.mem.bytes (start.procs slot).pgtbl codeVa =
      some (page, flags) ∧
    translate final.mem.bytes (final.procs slot).pgtbl codeVa =
      some (page, flags) ∧
    ∀ inKernel, ¬OnFreeList final.mem inKernel page

theorem CodeKept.stays
    {start final : State} {slot : Pid} {free free' : Bool → List UInt64}
    {held held' : Holder Pid → UInt64} (kept : CodeKept start final)
    (mapped : CodeMapped start) (holds : ForksHold start free held)
    (holds' : ForksHold final free' held')
    (isUsed : (start.procs slot).state ≠ .unused) :
    CodeStays start final slot := by
  have isUsed' := kept.used slot isUsed
  have canonical : Canonical codeVa := by decide
  have isUser : pageOf codeVa < userPages := by decide
  have valid := mapped.valid slot isUsed
  have isPte : pteAt final.mem.bytes (pgtbls final slot) codeVa =
      pteAt start.mem.bytes (pgtbls start slot) codeVa := by
    rw [kept.pgtbl slot isUsed]
    exact kept.pte slot isUsed
  have valid' : isValid (pteAt final.mem.bytes (pgtbls final slot) codeVa) =
      true := by
    rw [isPte]
    exact valid
  have isPage := holds'.user.pteToPa_eq isUser valid'
  have some := (holds'.user.backed slot codeVa isUser).2 valid'
  have noOffset : codeVa % 4096 = 0 := rfl
  refine ⟨isUsed', pteToPa (pteAt start.mem.bytes (pgtbls start slot) codeVa),
    pteFlags (pteAt start.mem.bytes (pgtbls start slot) codeVa), ?_, ?_,
    fun inKernel => ?_⟩
  · have walk := translate_eq (r := slot) holds.user.tables
      (holds.used slot isUsed).1 codeVa
    rw [if_pos canonical, leafOf, if_pos valid, noOffset, UInt64.add_zero]
      at walk
    exact walk
  · have walk := translate_eq (r := slot) holds'.user.tables
      (holds'.used slot isUsed').1 codeVa
    rw [if_pos canonical, leafOf, if_pos valid', noOffset, UInt64.add_zero,
      isPte] at walk
    exact walk
  · rw [holds'.user.lists.onFreeList_iff, ← isPte, isPage]
    exact holds'.user.notFree _ some inKernel

/-- In every run whose calls of `sys_brk` ask for a heap that ends above the
first byte of the code, the code of every process stays where it is. -/
theorem code_stays
    {start final : State} (reachable : forkSystem.ReachableBy SparesCode start)
    {slot : Pid} (isUsed : (start.procs slot).state ≠ .unused)
    (run : (forksFrom start).ReachableBy SparesCode final) :
    CodeStays start final slot := by
  have initially : ∀ state, forkSystem.Init state →
      (∃ free held, ForksHold state free held) ∧ CodeMapped state := by
    rintro state ⟨boot, before, booted, makes⟩
    obtain ⟨free, held, holds, _⟩ := ForksHold.first booted makes
    exact ⟨⟨free, held, holds⟩, .first booted makes⟩
  obtain ⟨⟨free, held, holds⟩, mapped⟩ := reachable.invariant initially (by
    rintro before action after ⟨⟨free, held, holds⟩, mapped⟩ spares step
    obtain ⟨holds', mapped', _⟩ := mapped.step holds spares step
    exact ⟨holds', mapped'⟩)
  have still : ∀ state, (forksFrom start).Init state →
      (∃ free held, ForksHold state free held) ∧ CodeMapped state ∧
        CodeKept start state := by
    rintro _ rfl
    exact ⟨⟨free, held, holds⟩, mapped, .refl⟩
  obtain ⟨⟨free', held', holds'⟩, _, kept⟩ := run.invariant still (by
    rintro before action after ⟨⟨free, held, holds⟩, mapped, kept⟩ spares step
    obtain ⟨holds', mapped', kept'⟩ := mapped.step holds spares step
    exact ⟨holds', mapped', kept.trans kept'⟩)
  exact kept.stays mapped holds holds' isUsed

/-- The code of the first process stays when its heap grows by a page. -/
theorem code_stays_small :
    ∃ start final, CodeStays start final procZero := by
  have grows := smallBrk_grows
  cases outcome : (smallBrk 16384).exec smallState with
  | error message =>
      rw [outcome] at grows
      cases grows
  | ok values =>
      obtain ⟨⟨before, result⟩, final⟩ := values
      obtain ⟨initial, isUsed, run⟩ := smallBrk_runs outcome
      have spares : SparesCode before (procZero, .brk 16384) :=
        Or.inr (by decide)
      exact ⟨before, final, code_stays (.init initial) isUsed
        (.step (.init rfl) spares (.brk isUsed run))⟩

/-- A request for a heap that ends in the code. -/
theorem smallBrk_unmaps :
    ((smallBrk 1).exec smallState).toOption.map (fun outcome =>
      Mem.translate outcome.2.mem.bytes (outcome.2.procs procZero).pgtbl codeVa) =
      some none := by
  decide +kernel

/-- A heap that ends below the code takes the code away. -/
theorem brk_unmaps_code :
    ¬∀ start final slot, forkSystem.Reachable start →
      (start.procs slot).state ≠ .unused →
      (forksFrom start).Reachable final → CodeStays start final slot := by
  intro stays
  have unmaps := smallBrk_unmaps
  cases outcome : (smallBrk 1).exec smallState with
  | error message =>
      rw [outcome] at unmaps
      cases unmaps
  | ok values =>
      rw [outcome] at unmaps
      obtain ⟨⟨before, result⟩, final⟩ := values
      obtain ⟨initial, isUsed, run⟩ := smallBrk_runs outcome
      obtain ⟨page, flags, _, mapped, _⟩ := (stays before final procZero
        (.init initial) isUsed
        (.step (.init rfl) trivial (.brk isUsed run))).mapped
      have unmapped := Option.some.inj unmaps
      exact absurd (mapped.symm.trans unmapped) (Option.some_ne_none _)

end Process
end WhuOs
