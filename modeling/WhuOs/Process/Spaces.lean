import WhuOs.Mem.Effects
import WhuOs.Mem.Retire
import WhuOs.Mem.Transfers
import WhuOs.Process.Forks

/-!
# Address spaces of the processes and pages of the kernel

Every page belongs to the process in a slot or to the kernel, or it is free.
Above its user pages the address space of a process has the trampoline and its
trapframe, and nothing else.
-/

namespace WhuOs
namespace Process

open Library
open Library.Bytes
open Mem
open Program (Preserves Runs)

/-! ## Owners -/

/-- Who has pages: the process in a slot, or the kernel, page by page. -/
inductive Owner
  | slot (slot : Pid)
  | kernel (page : UInt64)
  deriving DecidableEq

/-- The page tables of the owners.  The page table of the kernel is one of the
pages of the kernel. -/
def ownerRoot (state : State) : Owner → UInt64
  | .slot slot => pgtbls state slot
  | .kernel _ => 0

/-- The place of a page of a slot among those of all owners. -/
def slotHolder : Holder Pid → Holder Owner
  | .user slot page => .user (.slot slot) page
  | .trapframe slot => .trapframe (.slot slot)
  | .scratch => .scratch

theorem slotHolder_injective : Function.Injective slotHolder := by
  intro holder holder' same
  cases holder with
  | user slot page =>
      cases holder' with
      | user slot' page' =>
          cases same
          rfl
      | trapframe slot' => cases same
      | scratch => cases same
  | trapframe slot =>
      cases holder' with
      | user slot' page' => cases same
      | trapframe slot' =>
          cases same
          rfl
      | scratch => cases same
  | scratch =>
      cases holder' with
      | user slot' page' => cases same
      | trapframe slot' => cases same
      | scratch => rfl

/-- The pages that the kernel keeps after `kvm_init`, and those among them that
it never writes to again. -/
structure KernelPart where
  boot : Mem.State
  owned : UInt64 → Prop
  fixed : UInt64 → Prop
  owned_of_fixed : ∀ page, fixed page → owned page

/-- The entries of the page table of a process above the user pages. -/
def gateEntry (trampoline tf : UInt64) (page : Nat) : UInt64 :=
  if page = pageOf trampolineVa then leafPte trampoline (pteR ||| pteX)
  else if page = pageOf trapframeVa then leafPte tf (pteR ||| pteW)
  else 0

/-- Used slots have a page table and a trapframe, the pages below the tops of
their heaps are mapped, and only the first process knows of stack pages. -/
structure SlotsHold (state : State) : Prop where
  used : ∀ slot, (state.procs slot).state ≠ .unused →
    (state.procs slot).pgtbl ≠ 0 ∧ (state.procs slot).tf ≠ 0
  unused : ∀ slot, (state.procs slot).state = .unused →
    (state.procs slot).pgtbl = 0 ∧ (state.procs slot).tf = 0
  heap : ∀ slot, (state.procs slot).state ≠ .unused →
    ∀ va, Between 12288 (pageAlign (state.procs slot).heapTop) (pageOf va) →
      isValid (pteAt state.mem.bytes (state.procs slot).pgtbl va) = true
  low : ∀ slot, (state.procs slot).state ≠ .unused →
    (state.procs slot).heapTop.toNat ≤ 2 ^ 30
  stack : ∀ slot, (state.procs slot).ustackPages =
    if slot = procZero then 2 else 0
  zero : (state.procs procZero).state ≠ .unused

/-- Every page has one owner, the pages of the kernel are what they were, and
the address spaces of the processes have their gates to the kernel. -/
structure Spaces (kernel : KernelPart) (state : State)
    (free : Bool → List UInt64) (held : Holder Owner → UInt64) : Prop where
  slots : SlotsHold state
  user : UserMem state.mem (ownerRoot state) free held
  formed : Formed state.mem.bytes (ownerRoot state)
  trapframe : ∀ slot, held (.trapframe (.slot slot)) = (state.procs slot).tf
  kernelHeld : ∀ page, kernel.owned page →
    page ≠ 0 ∧ held (.trapframe (.kernel page)) = page
  kernelPgtbl : state.mem.kernelPgtbl = kernel.boot.kernelPgtbl
  intact : ∀ page, kernel.fixed page →
    Unchanged page kernel.boot.bytes state.mem.bytes
  gates : ∀ slot, (state.procs slot).state ≠ .unused →
    ∀ va, userPages ≤ pageOf va →
      pteAt state.mem.bytes (pgtbls state slot) va =
        gateEntry state.trampoline (state.procs slot).tf (pageOf va)

/-- The slots of a state without its owners. -/
theorem ForksHold.slots
    {state : State} {free : Bool → List UInt64} {held : Holder Pid → UInt64}
    (holds : ForksHold state free held) : SlotsHold state :=
  ⟨holds.used, holds.unused, holds.heap, holds.low, holds.stack, holds.zero⟩

variable {kernel : KernelPart} {state final : State} {mem' : Mem.State}
  {free free' : Bool → List UInt64} {held held' : Holder Owner → UInt64}
  {curr slot : Pid}

/-- The pages of the processes without those of the kernel. -/
theorem userMem_slots
    (user : UserMem state.mem (ownerRoot state) free held) :
    UserMem state.mem (pgtbls state) free (held ∘ slotHolder) := by
  have tables : Tables state.mem.bytes (pgtbls state) free := by
    refine ⟨fun slot => user.tables.aligned (.slot slot), ⟨?_, ?_⟩, ?_⟩
    · intro slot path bound present
      exact user.tables.sound.marked (.slot slot) path bound present
    · intro slot slot' path path' bound bound' present same
      rcases user.tables.sound.unique (.slot slot) (.slot slot') path path'
        bound bound' present same with ⟨sameSlot, samePath⟩
      exact ⟨Owner.slot.inj sameSlot, samePath⟩
    · intro slot path index short present valid
      exact user.tables.pointer (.slot slot) path index short present valid
  refine ⟨⟨user.lists, tables, user.freeRam, ?_, ?_, ?_, ?_⟩, ?_,
    user.scratch⟩
  · intro holder some
    exact user.inRam (slotHolder holder) some
  · intro holder some
    exact user.notFree (slotHolder holder) some
  · intro holder some slot path bound
    exact user.notTable (slotHolder holder) some (.slot slot) path bound
  · intro holder holder' some same
    exact slotHolder_injective
      (user.unique (slotHolder holder) (slotHolder holder') some same)
  · intro slot va isUser
    exact user.backed (.slot slot) va isUser

namespace Spaces

/-- The invariant of the forks. -/
theorem forksHold (spaces : Spaces kernel state free held) :
    ForksHold state free (held ∘ slotHolder) :=
  ⟨userMem_slots spaces.user, spaces.trapframe, spaces.slots.used,
    spaces.slots.unused, spaces.slots.heap, spaces.slots.low,
    spaces.slots.stack, spaces.slots.zero⟩

theorem kernel_some
    (spaces : Spaces kernel state free held) {page : UInt64}
    (owned : kernel.owned page) : held (.trapframe (.kernel page)) ≠ 0 := by
  rcases spaces.kernelHeld page owned with ⟨notNull, isHeld⟩
  rw [isHeld]
  exact notNull

theorem trapframe_some
    (spaces : Spaces kernel state free held)
    (isUsed : (state.procs slot).state ≠ .unused) :
    held (.trapframe (.slot slot)) ≠ 0 := by
  rw [spaces.trapframe]
  exact (spaces.slots.used slot isUsed).2

end Spaces

/-! ## Changes of the process table -/

/-- A process keeps its pages. -/
structure SamePages (before after : Proc) : Prop where
  pgtbl : after.pgtbl = before.pgtbl
  tf : after.tf = before.tf
  unused : after.state = .unused ↔ before.state = .unused
  heapTop : before.state ≠ .unused → after.heapTop = before.heapTop
  ustackPages : after.ustackPages = before.ustackPages

namespace SamePages

theorem refl (proc : Proc) : SamePages proc proc :=
  ⟨rfl, rfl, Iff.rfl, fun _ => rfl, rfl⟩

theorem trans
    {first second third : Proc} (lower : SamePages first second)
    (upper : SamePages second third) : SamePages first third := by
  refine ⟨upper.pgtbl.trans lower.pgtbl, upper.tf.trans lower.tf,
    upper.unused.trans lower.unused, ?_,
    upper.ustackPages.trans lower.ustackPages⟩
  intro isUsed
  have isUsed' : second.state ≠ .unused :=
    fun isUnused => isUsed (lower.unused.mp isUnused)
  exact (upper.heapTop isUsed').trans (lower.heapTop isUsed)

theorem of_woken
    {before after : Proc} (woken : Woken before after) :
    SamePages before after := by
  rcases woken with same | ⟨isSleeping, woke⟩
  · rw [same]
    exact refl before
  · rw [woke]
    refine ⟨rfl, rfl, ?_, fun _ => rfl, rfl⟩
    rw [isSleeping]
    exact iff_of_false nofun nofun

theorem reparented (proc : Proc) (curr : Pid) :
    SamePages proc (proc.reparented curr) := by
  unfold Proc.reparented
  split
  · exact ⟨rfl, rfl, Iff.rfl, fun _ => rfl, rfl⟩
  · exact refl proc

/-- One process is replaced. -/
theorem setProc
    {proc : Proc} (same : SamePages (state.procs curr) proc) (slot : Pid) :
    SamePages (state.procs slot) ((state.setProc curr proc).procs slot) := by
  by_cases isCurr : slot = curr
  · rw [isCurr, setProc_procs_self]
    exact same
  · rw [setProc_procs_of_ne isCurr]
    exact refl _

end SamePages

theorem SlotsHold.congr
    (slots : SlotsHold state) (mem : final.mem = state.mem)
    (same : ∀ slot, SamePages (state.procs slot) (final.procs slot)) :
    SlotsHold final := by
  have used : ∀ slot, (final.procs slot).state ≠ .unused →
      (state.procs slot).state ≠ .unused :=
    fun slot isUsed isUnused => isUsed ((same slot).unused.mpr isUnused)
  constructor
  · intro slot isUsed
    rw [(same slot).pgtbl, (same slot).tf]
    exact slots.used slot (used slot isUsed)
  · intro slot isUnused
    rw [(same slot).pgtbl, (same slot).tf]
    exact slots.unused slot ((same slot).unused.mp isUnused)
  · intro slot isUsed va inside
    rw [(same slot).heapTop (used slot isUsed)] at inside
    rw [mem, (same slot).pgtbl]
    exact slots.heap slot (used slot isUsed) va inside
  · intro slot isUsed
    rw [(same slot).heapTop (used slot isUsed)]
    exact slots.low slot (used slot isUsed)
  · intro slot
    rw [(same slot).ustackPages]
    exact slots.stack slot
  · intro isUnused
    exact slots.zero ((same procZero).unused.mp isUnused)

theorem ownerRoot_congr
    (same : ∀ slot, (final.procs slot).pgtbl = (state.procs slot).pgtbl) :
    ownerRoot final = ownerRoot state := by
  funext owner
  cases owner with
  | slot slot => exact same slot
  | kernel page => rfl

/-- The pages stay where they are. -/
theorem Spaces.congr
    (spaces : Spaces kernel state free held) (mem : final.mem = state.mem)
    (trampoline : final.trampoline = state.trampoline)
    (same : ∀ slot, SamePages (state.procs slot) (final.procs slot)) :
    Spaces kernel final free held := by
  have roots := ownerRoot_congr fun slot => (same slot).pgtbl
  refine ⟨spaces.slots.congr mem same, ?_, ?_, ?_, spaces.kernelHeld, ?_, ?_,
    ?_⟩
  · rw [mem, roots]
    exact spaces.user
  · rw [mem, roots]
    exact spaces.formed
  · intro slot
    rw [(same slot).tf]
    exact spaces.trapframe slot
  · rw [mem]
    exact spaces.kernelPgtbl
  · rw [mem]
    exact spaces.intact
  · intro slot isUsed va isHigh
    have isUsed' : (state.procs slot).state ≠ .unused :=
      fun isUnused => isUsed ((same slot).unused.mpr isUnused)
    have gate := spaces.gates slot isUsed' va isHigh
    unfold pgtbls at gate ⊢
    rw [mem, trampoline, (same slot).pgtbl, (same slot).tf]
    exact gate

theorem SlotsHold.setMem
    (slots : SlotsHold state)
    (ptes : ∀ slot va, pteAt mem'.bytes (pgtbls state slot) va =
      pteAt state.mem.bytes (pgtbls state slot) va) :
    SlotsHold (state.setMem mem') := by
  refine ⟨slots.used, slots.unused, ?_, slots.low, slots.stack, slots.zero⟩
  intro slot isUsed va inside
  have valid := slots.heap slot isUsed va inside
  exact (congrArg isValid (ptes slot va)).trans valid

/-! ## Writes -/

/-- A write to a page that somebody has. -/
theorem Spaces.write
    (spaces : Spaces kernel state free held) {holder : Holder Owner}
    (some : held holder ≠ 0)
    (notFixed : ∀ page, kernel.fixed page → holder ≠ .trapframe (.kernel page))
    {bytes : Bytes} (changed : ChangedIn (held holder) state.mem.bytes bytes) :
    Spaces kernel (state.setMem (state.mem.setBytes bytes)) free held := by
  have ptes := spaces.user.pteAt_write some changed
  refine ⟨spaces.slots.setMem fun slot va => ptes (.slot slot) va,
    spaces.user.write some changed,
    spaces.formed.write spaces.user.toHolds some changed, spaces.trapframe,
    spaces.kernelHeld, spaces.kernelPgtbl, ?_, ?_⟩
  · intro page isFixed
    have owned := kernel.owned_of_fixed page isFixed
    have some' := spaces.kernel_some owned
    have kept := spaces.user.unchanged_write some some'
      (notFixed page isFixed).symm changed
    rw [(spaces.kernelHeld page owned).2] at kept
    exact (spaces.intact page isFixed).trans kept
  · intro slot isUsed va isHigh
    exact (ptes (.slot slot) va).trans (spaces.gates slot isUsed va isHigh)

/-- A pointer of a user page that is mapped. -/
theorem Spaces.pteToPa_user
    (spaces : Spaces kernel state free held) {va : UInt64}
    (isUser : pageOf va < userPages)
    (valid : isValid (pteAt state.mem.bytes (pgtbls state slot) va) = true) :
    pteToPa (pteAt state.mem.bytes (pgtbls state slot) va) =
        held (.user (.slot slot) (pageOf va)) ∧
      held (.user (.slot slot) (pageOf va)) ≠ 0 := by
  have backed := spaces.user.backed (.slot slot) va isUser
  have isHeld : held (.user (.slot slot) (pageOf va)) =
      entryPage (pteAt state.mem.bytes (pgtbls state slot) va) := backed.1
  refine ⟨?_, backed.2 valid⟩
  rw [isHeld, entryPage, if_pos valid]

/-! ## The status of a child -/

/-- The number of bytes of a turn of `uvm_copyout`. -/
def copyoutCount (va : UInt64) (len copied : UInt32) : UInt32 :=
  if len - copied < 4096 - (va &&& 4095).toUInt32 then len - copied
  else 4096 - (va &&& 4095).toUInt32

/-- A turn stays in the page and in the copy. -/
theorem copyoutCount_toNat
    (va : UInt64) {len copied : UInt32} (more : copied < len) :
    (va &&& 4095).toNat = va.toNat % 4096 ∧
      va.toNat % 4096 + (copyoutCount va len copied).toNat ≤ 4096 ∧
      copied.toNat + (copyoutCount va len copied).toNat ≤ len.toNat := by
  have offset : (va &&& 4095).toNat = va.toNat % 4096 := by
    rw [UInt64.toNat_and]
    exact Nat.and_two_pow_sub_one_eq_mod va.toNat 12
  have below := Nat.mod_lt va.toNat (show 0 < 4096 by decide)
  have small : (va &&& 4095).toUInt32.toNat = va.toNat % 4096 := by
    rw [UInt64.toNat_toUInt32, offset]
    exact Nat.mod_eq_of_lt (by omega)
  have rest : (4096 - (va &&& 4095).toUInt32).toNat =
      4096 - va.toNat % 4096 := by
    rw [UInt32.toNat_sub_of_le, small]
    · rfl
    · rw [UInt32.le_iff_toNat_le, small]
      exact Nat.le_of_lt below
  have left : (len - copied).toNat = len.toNat - copied.toNat :=
    UInt32.toNat_sub_of_le _ _ (UInt32.le_of_lt more)
  rw [UInt32.lt_iff_toNat_lt] at more
  refine ⟨offset, ?_⟩
  unfold copyoutCount
  split
  · next less =>
    rw [UInt32.lt_iff_toNat_lt, left, rest] at less
    rw [left]
    omega
  · next notLess =>
    rw [UInt32.lt_iff_toNat_lt, left, rest] at notLess
    rw [rest]
    omega

/-- One turn of the loop of `uvm_copyout`. -/
theorem copyoutLoop_turn
    {ρ : Type} {root : ρ → UInt64} {r : ρ} {mem : Mem.State} {va : UInt64}
    (tables : Tables mem.bytes root free) (present : root r ≠ 0)
    {source : Bytes → Bytes} {len copied : UInt32} {fuel : Nat}
    (more : copied < len) :
    (copyoutLoop (root r) source len (fuel + 1) va copied).Runs mem () mem' ↔
      IsMapped mem.bytes (root r) va ∧
        (copyoutLoop (root r) source len fuel
          (va + (copyoutCount va len copied).toUInt64)
          (copied + copyoutCount va len copied)).Runs
          (mem.setBytes (memmove mem.bytes
            (pteToPa (pteAt mem.bytes (root r) va) + (va &&& 4095)).toNat
            (fun index => source mem.bytes (copied.toNat + index))
            (copyoutCount va len copied).toNat)) () mem' := by
  rw [copyoutLoop, if_pos more, lookup_checked tables present]
  refine and_congr_right fun _ => ?_
  simp only [Program.runs_bind, Program.runs_modify]
  constructor
  · rintro ⟨_, _, rfl, rest⟩
    exact rest
  · intro rest
    exact ⟨(), _, rfl, rest⟩

/-- Only pages of the process that waits have changed, and not the tables. -/
structure StatusCopied (kernel : KernelPart) (state : State) (curr : Pid)
    (free : Bool → List UInt64) (held : Holder Owner → UInt64)
    (mem : Mem.State) : Prop where
  spaces : Spaces kernel (state.setMem mem) free held
  tables : ∀ owner path, path.length ≤ 2 →
    tableAt mem.bytes (ownerRoot state owner) path =
      tableAt state.mem.bytes (ownerRoot state owner) path
  ptes : ∀ owner va, pteAt mem.bytes (ownerRoot state owner) va =
    pteAt state.mem.bytes (ownerRoot state owner) va
  others : ∀ holder, held holder ≠ 0 →
    (∀ page, holder ≠ .user (.slot curr) page) →
      Unchanged (held holder) state.mem.bytes mem.bytes

namespace StatusCopied

theorem refl (spaces : Spaces kernel state free held) :
    StatusCopied kernel state curr free held state.mem :=
  ⟨spaces, fun _ _ _ => rfl, fun _ _ => rfl, fun _ _ _ _ _ => rfl⟩

/-- A write to a page of the process that waits. -/
theorem write
    {mem : Mem.State} (copied : StatusCopied kernel state curr free held mem)
    {page : Nat} (some : held (.user (.slot curr) page) ≠ 0) {bytes : Bytes}
    (changed : ChangedIn (held (.user (.slot curr) page)) mem.bytes bytes) :
    StatusCopied kernel state curr free held (mem.setBytes bytes) := by
  have user := copied.spaces.user
  have aligned := (user.taken some).aligned
  refine ⟨copied.spaces.write some nofun changed, ?_, ?_, ?_⟩
  · intro owner path bound
    exact (tableAt_of_notTable user.tables changed aligned
      (user.notTable _ some) owner path bound).trans
        (copied.tables owner path bound)
  · intro owner va
    exact (user.pteAt_write some changed owner va).trans (copied.ptes owner va)
  · intro holder isSome differs
    exact (copied.others holder isSome differs).trans
      (user.unchanged_write some isSome (differs page) changed)

end StatusCopied

/-- `uvm_copyout` to addresses below the trapframe. -/
theorem Spaces.copyoutLoop
    (present : (state.procs curr).pgtbl ≠ 0) (source : Bytes → Bytes)
    {len copied : UInt32} {fuel : Nat} {va : UInt64}
    (low : va.toNat + (len.toNat - copied.toNat) ≤ 4096 * userPages) :
    Preserves (StatusCopied kernel state curr free held)
      (copyoutLoop (state.procs curr).pgtbl source len fuel va copied) := by
  induction fuel generalizing va copied with
  | zero => exact Preserves.pure ()
  | succ fuel inductionHypothesis =>
      by_cases more : copied < len
      · rintro mem ⟨⟩ mem' isCopied run
        have spaces := isCopied.spaces
        have tables : Tables mem.bytes (ownerRoot state) free :=
          spaces.user.tables
        have isRoot : ownerRoot state (.slot curr) ≠ 0 := present
        rcases (copyoutLoop_turn tables isRoot more).mp run with
          ⟨⟨_, valid⟩, rest⟩
        rcases copyoutCount_toNat va more with ⟨offset, inPage, inLen⟩
        have moreNat := UInt32.lt_iff_toNat_lt.mp more
        have isUser : pageOf va < userPages := by
          unfold userPages at low ⊢
          unfold pageOf
          omega
        rcases spaces.pteToPa_user isUser valid with ⟨isHeld, some⟩
        have room := (aligned_pteToPa (pteAt mem.bytes (pgtbls state curr)
          va)).room
        have address : (pteToPa (pteAt mem.bytes (ownerRoot state
            (.slot curr)) va) + (va &&& 4095)).toNat = (pteToPa (pteAt
              mem.bytes (pgtbls state curr) va)).toNat + va.toNat % 4096 := by
          change (pteToPa (pteAt mem.bytes (pgtbls state curr) va) +
            (va &&& 4095)).toNat = _
          rw [UInt64.toNat_add, offset]
          omega
        have sum : (va + (copyoutCount va len copied).toUInt64).toNat =
            va.toNat + (copyoutCount va len copied).toNat := by
          rw [UInt64.toNat_add, UInt32.toNat_toUInt64]
          unfold userPages at low
          omega
        have sum' : (copied + copyoutCount va len copied).toNat =
            copied.toNat + (copyoutCount va len copied).toNat := by
          have bound := len.toNat_lt
          rw [UInt32.toNat_add]
          omega
        refine inductionHypothesis ?_ (isCopied.write some ?_) rest
        · rw [sum, sum']
          omega
        · have isPage : pteToPa (pteAt mem.bytes (pgtbls state curr) va) =
              held (.user (.slot curr) (pageOf va)) := isHeld
          rw [← isPage]
          exact changedIn_memmove (by omega) (by omega)
      · unfold Mem.copyoutLoop
        rw [if_neg more]
        exact Preserves.pure ()

/-- The status of a child is stored below the trapframe. -/
theorem Spaces.copyStatus
    (present : (state.procs curr).pgtbl ≠ 0) {addr : UInt64}
    (low : addr.toNat + 4 ≤ 4096 * userPages) (exitState : UInt32) :
    Preserves (StatusCopied kernel state curr free held)
      (copyStatus (state.procs curr).pgtbl addr exitState) := by
  unfold Process.copyStatus
  split
  · exact Preserves.pure ()
  · exact Spaces.copyoutLoop present _ low

/-! ## The heap -/

/-- The page table of the kernel stays where it is. -/
theorem stable_kernelPgtbl (pgtbl : UInt64) :
    Stable fun mem => mem.kernelPgtbl = pgtbl where
  bytes _ _ same := same
  alloc inKernel := by
    intro mem page mem' same run
    rcases pmemAlloc_runs.mp run with ⟨_, _, rfl⟩ | ⟨_, _, rfl⟩
    · exact same
    · rw [← same]
      cases inKernel with
      | true => rfl
      | false => rfl
  free page := by
    intro mem _ mem' same run
    rcases pmemFree_runs.mp run with rfl
    exact same

/-- User pages of one process are worked on. -/
theorem Spaces.move
    (spaces : Spaces kernel state free held) {pages : Nat → Prop}
    (low : ∀ page, pages page → page < userPages) (slots : SlotsHold final)
    (trampoline : final.trampoline = state.trampoline)
    (kernelPgtbl : final.mem.kernelPgtbl = state.mem.kernelPgtbl)
    (same : ∀ slot, (final.procs slot).pgtbl = (state.procs slot).pgtbl ∧
      (final.procs slot).tf = (state.procs slot).tf ∧
      (final.procs slot).state = (state.procs slot).state)
    (user : UserMem final.mem (ownerRoot state) free' held')
    (formed : Formed final.mem.bytes (ownerRoot state))
    (touches : Touches (ownerRoot state) (.slot curr) pages state.mem held
      final.mem held') :
    Spaces kernel final free' held' := by
  have roots := ownerRoot_congr fun slot => (same slot).1
  have trapframes : ∀ owner, held' (.trapframe owner) =
      held (.trapframe owner) ∧ (held (.trapframe owner) ≠ 0 →
        Unchanged (held (.trapframe owner)) state.mem.bytes final.mem.bytes) :=
    fun owner => touches.holders (.trapframe owner) nofun fun _ _ => nofun
  rw [← roots] at user formed
  refine ⟨slots, user, formed, ?_, ?_, ?_, ?_, ?_⟩
  · intro slot
    rw [(trapframes _).1, (same slot).2.1]
    exact spaces.trapframe slot
  · intro page owned
    rw [(trapframes _).1]
    exact spaces.kernelHeld page owned
  · rw [kernelPgtbl]
    exact spaces.kernelPgtbl
  · intro page isFixed
    have owned := kernel.owned_of_fixed page isFixed
    have kept := (trapframes (.kernel page)).2 (spaces.kernel_some owned)
    rw [(spaces.kernelHeld page owned).2] at kept
    exact (spaces.intact page isFixed).trans kept
  · intro slot isUsed va isHigh
    rw [(same slot).2.2] at isUsed
    have gate := spaces.gates slot isUsed va isHigh
    have kept := touches.ptes (.slot slot) va fun both =>
      absurd (low _ both.2) (Nat.not_lt.mpr isHigh)
    have isRoot : pgtbls final slot = pgtbls state slot := (same slot).1
    rw [isRoot, trampoline, (same slot).2.1, ← gate]
    exact kept

/-- The trapframes of the processes have the bytes they had. -/
def SameTrapframes (before after : State) : Prop :=
  ∀ slot, (before.procs slot).state ≠ .unused →
    Unchanged (before.procs slot).tf before.mem.bytes after.mem.bytes

theorem SameTrapframes.of_bytes
    (bytes : final.mem.bytes = state.mem.bytes) : SameTrapframes state final := by
  intro slot _ address _
  rw [bytes]

/-- Work on user pages leaves the trapframes alone. -/
theorem Spaces.sameTrapframes
    (spaces : Spaces kernel state free held) {pages : Nat → Prop}
    (touches : Touches (ownerRoot state) (.slot curr) pages state.mem held
      final.mem held') : SameTrapframes state final := by
  intro slot isUsed
  have kept := touches.holders (.trapframe (.slot slot)) nofun fun _ _ => nofun
  rw [← spaces.trapframe slot]
  exact kept.2 (spaces.trapframe_some isUsed)

/-- A process whose heap moves keeps its page table and its trapframe. -/
theorem setHeapTop_same (mem : Mem.State) (heapTop : UInt64) (slot : Pid) :
    (((state.setMem mem).setProc curr
        ((state.procs curr).setHeapTop heapTop)).procs slot).pgtbl =
        (state.procs slot).pgtbl ∧
      (((state.setMem mem).setProc curr
        ((state.procs curr).setHeapTop heapTop)).procs slot).tf =
        (state.procs slot).tf ∧
      (((state.setMem mem).setProc curr
        ((state.procs curr).setHeapTop heapTop)).procs slot).state =
        (state.procs slot).state := by
  by_cases isCurr : slot = curr
  · rw [isCurr, setProc_procs_self]
    exact ⟨rfl, rfl, rfl⟩
  · rw [setProc_procs_of_ne isCurr]
    exact ⟨rfl, rfl, rfl⟩

theorem between_user
    {first stop : UInt64} (low : stop.toNat ≤ 4096 * userPages) {page : Nat}
    (inside : Between first stop page) : page < userPages := by
  have above := inside.2
  omega

/-- The end of a heap is far below the trapframe. -/
theorem pageAlign_low
    {heapTop : UInt64} (low : heapTop.toNat ≤ 2 ^ 30) (len : UInt32) :
    (pageAlign (heapTop + len.toUInt64)).toNat ≤ 4096 * userPages := by
  have lenBound := len.toNat_lt
  have sum : (heapTop + len.toUInt64).toNat = heapTop.toNat + len.toNat := by
    rw [UInt64.toNat_add, UInt32.toNat_toUInt64]
    omega
  have stop := pageAlign_toNat
    (show (heapTop + len.toUInt64).toNat + 4095 < 2 ^ 64 by omega)
  unfold userPages
  omega

/-- `sys_brk`. -/
theorem Spaces.brk
    (spaces : Spaces kernel state free held)
    (isUsed : (state.procs curr).state ≠ .unused) {newBrk result : UInt64}
    (run : (sysBrk curr newBrk).Runs state result final) :
    (∃ free' held', Spaces kernel final free' held') ∧
      SameTrapframes state final := by
  have low := spaces.slots.low curr isUsed
  have present : ownerRoot state (.slot curr) ≠ 0 :=
    (spaces.slots.used curr isUsed).1
  have space : Space (ownerRoot state) state.mem :=
    ⟨⟨free, held, spaces.user⟩, spaces.formed⟩
  rcases spaces.forksHold.brk isUsed run with ⟨_, _, holds⟩
  have stable := stable_kernelPgtbl state.mem.kernelPgtbl
  cases sysBrk_outcome run with
  | same _ => exact ⟨⟨free, held, spaces⟩, .of_bytes rfl⟩
  | @failed newTop mem _ _ grow _ =>
      rcases @UserMem.heapGrow _ _ (ownerRoot state) _ _ _ _ (.slot curr)
        spaces.user present _ _ _ low grow with
        ⟨free', held', user, touches, _⟩
      have formed := (Space.heapGrow low _ present space grow).2
      exact ⟨⟨free', held', spaces.move
        (fun _ => between_user (pageAlign_low low _)) holds.slots rfl
        (stable.uvmHeapGrow _ _ _ rfl grow) (fun _ => ⟨rfl, rfl, rfl⟩) user
        formed touches⟩, spaces.sameTrapframes touches⟩
  | grown _ _ grow =>
      rcases @UserMem.heapGrow _ _ (ownerRoot state) _ _ _ _ (.slot curr)
        spaces.user present _ _ _ low grow with
        ⟨free', held', user, touches, _⟩
      have formed := (Space.heapGrow low _ present space grow).2
      exact ⟨⟨free', held', spaces.move
        (fun _ => between_user (pageAlign_low low _)) holds.slots rfl
        (stable.uvmHeapGrow _ _ _ rfl grow) (setHeapTop_same _ _) user formed
        touches⟩, spaces.sameTrapframes touches⟩
  | shrunk _ _ ungrow =>
      rcases @UserMem.heapUngrow _ _ (ownerRoot state) _ _ _ _ (.slot curr)
        spaces.user present _ _ _ low ungrow with
        ⟨free', held', user, touches, _⟩
      have formed := (Space.heapUngrow low _ present space ungrow).2
      have isUser := pageAlign_low low 0
      have none : (0 : UInt32).toUInt64 = 0 := rfl
      rw [none, UInt64.add_zero] at isUser
      exact ⟨⟨free', held', spaces.move (fun _ => between_user isUser)
        holds.slots rfl (stable.uvmHeapUngrow _ _ _ rfl ungrow)
        (setHeapTop_same _ _) user formed touches⟩,
        spaces.sameTrapframes touches⟩

/-! ## Processes that are freed -/

theorem released_of_ne
    {ρ : Type} [DecidableEq ρ] {held : Holder ρ → UInt64} {r : ρ}
    {holder : Holder ρ} (other : ∀ page, holder ≠ .user r page) :
    released held r holder = held holder := by
  cases holder with
  | user r' page =>
      refine if_neg ?_
      intro same
      rw [same] at other
      exact other page rfl
  | trapframe r' => rfl
  | scratch => rfl

/-- Whether a page has its place in the address space of a process. -/
def Holder.IsOf (slot : Pid) (holder : Holder Owner) : Prop :=
  holder = .trapframe (.slot slot) ∨ ∃ page, holder = .user (.slot slot) page

/-- The pages of a process are free, each of them once: the trapframe is on the
list of the kernel, and the tables and the user pages are on that of users.
Other processes have the pages they had. -/
structure Freed (slot : Pid) (state : State) (free : Bool → List UInt64)
    (held : Holder Owner → UInt64) (final : State)
    (free' : Bool → List UInt64) (held' : Holder Owner → UInt64) : Prop where
  kernelFree : free' true = (state.procs slot).tf :: free true
  userFree : ∃ pages : List UInt64, pages.Nodup ∧
    free' false = pages ++ free false ∧
    ∀ page, page ∈ pages ↔ page ≠ 0 ∧
      ((∃ path, path.length ≤ 2 ∧
          tableAt state.mem.bytes (pgtbls state slot) path = page) ∨
        ∃ number < userPages, held (.user (.slot slot) number) = page)
  ptes : ∀ other va, other ≠ slot →
    pteAt final.mem.bytes (pgtbls state other) va =
      pteAt state.mem.bytes (pgtbls state other) va
  pages : ∀ holder, held holder ≠ 0 → ¬Holder.IsOf slot holder →
    held' holder = held holder ∧
      Unchanged (held holder) state.mem.bytes final.mem.bytes

theorem gateEntry_outside
    {trampoline tf : UInt64} {page : Nat}
    (notTrampoline : page ≠ pageOf trampolineVa)
    (notTrapframe : page ≠ pageOf trapframeVa) :
    gateEntry trampoline tf page = 0 := by
  unfold gateEntry
  rw [if_neg notTrampoline, if_neg notTrapframe]

theorem ownerRoot_setProc (state : State) (slot : Pid) (proc : Proc) :
    ownerRoot (state.setProc slot proc) =
      Function.update (ownerRoot state) (.slot slot) proc.pgtbl := by
  funext owner
  cases owner with
  | kernel page => rfl
  | slot other =>
      change ((state.setProc slot proc).procs other).pgtbl = _
      by_cases same : other = slot
      · rw [same, setProc_procs_self, Function.update_self]
      · rw [setProc_procs_of_ne same, Function.update_of_ne]
        · rfl
        · intro sameOwner
          exact same (Owner.slot.inj sameOwner)

section Free

variable (spaces : Spaces kernel state free held)
  (isUsed : (state.procs slot).state ≠ .unused)

include spaces isUsed

/-- The memory while a process is freed. -/
theorem Spaces.free_memory
    {result : Unit} (run : (procFree slot).Runs state result final) :
    ∃ mem free', final =
        (state.setMem mem).setProc slot (state.procs slot).freed ∧
      Reclaimed (ownerRoot state) (.slot slot)
        (state.mem.giveBack (state.procs slot).tf true)
        (Function.update free true ((state.procs slot).tf :: free true))
        (Function.update held (.trapframe (.slot slot)) 0) mem free' := by
  rcases spaces.slots.used slot isUsed with ⟨present, tfSome⟩
  rcases procFree_runs run with ⟨middle, mem, frees, destroys, isFinal⟩
  unfold freeUnlessNull at frees
  rw [if_neg tfSome] at frees
  rcases pmemFree_runs.mp frees with rfl
  have some := spaces.trapframe_some isUsed
  have user := spaces.user.giveBack_trapframe some true
  have formed := spaces.formed.giveBack spaces.user some true
  have ptes := spaces.user.pteAt_giveBack some true
  rw [spaces.trapframe] at user formed ptes
  have isRoot : ownerRoot state (.slot slot) ≠ 0 := present
  rcases user.retire isRoot formed (fun va isHigh notTrampoline
    notTrapframe => by
      have gate := spaces.gates slot isUsed va isHigh
      rw [gateEntry_outside notTrampoline notTrapframe] at gate
      rw [ptes]
      exact congrArg isValid gate) destroys with ⟨free', reclaimed⟩
  exact ⟨mem, free', isFinal, reclaimed⟩

/-- The pages of the others while a process is freed. -/
theorem Spaces.free_pages
    {mem : Mem.State} (reclaimed : Reclaimed (ownerRoot state) (.slot slot)
      (state.mem.giveBack (state.procs slot).tf true)
      (Function.update free true ((state.procs slot).tf :: free true))
      (Function.update held (.trapframe (.slot slot)) 0) mem free')
    {holder : Holder Owner} (isSome : held holder ≠ 0)
    (notOf : ¬Holder.IsOf slot holder) :
    released (Function.update held (.trapframe (.slot slot)) 0) (.slot slot)
        holder = held holder ∧
      Unchanged (held holder) state.mem.bytes mem.bytes := by
  have notTf : holder ≠ .trapframe (.slot slot) := fun same =>
    notOf (Or.inl same)
  have notUser : ∀ page, holder ≠ .user (.slot slot) page := fun page same =>
    notOf (Or.inr ⟨page, same⟩)
  have kept : Function.update held (.trapframe (.slot slot)) 0 holder =
      held holder := Function.update_of_ne notTf _ _
  constructor
  · rw [released_of_ne notUser, kept]
  · have some := spaces.trapframe_some isUsed
    have first := spaces.user.unchanged_write some isSome notTf
      (changedIn_giveBack _ _ true)
    rw [spaces.trapframe] at first
    have isSome' : Function.update held (.trapframe (.slot slot)) 0 holder ≠
        0 := by
      rw [kept]
      exact isSome
    have second := reclaimed.pages holder isSome' notUser
    rw [kept] at second
    exact first.trans second

/-- `proc_free` frees the pages of a process. -/
theorem Spaces.free_slot
    (notZero : slot ≠ procZero) {result : Unit}
    (run : (procFree slot).Runs state result final) :
    ∃ free' held', Spaces kernel final free' held' ∧
      Freed slot state free held final free' held' := by
  rcases spaces.free_memory isUsed run with ⟨mem, free', rfl, reclaimed⟩
  have some := spaces.trapframe_some isUsed
  have atTf := spaces.trapframe slot
  have pages := fun holder => @Spaces.free_pages _ _ _ _ _ _ spaces isUsed mem
    reclaimed holder
  have ptes : ∀ other va, other ≠ slot → pteAt mem.bytes (pgtbls state other)
      va = pteAt state.mem.bytes (pgtbls state other) va := by
    intro other va differs
    have first := spaces.user.pteAt_giveBack some true (.slot other) va
    rw [atTf] at first
    exact (reclaimed.ptes (.slot other) va (fun same => differs
      (Owner.slot.inj same))).trans first
  have others : ∀ other, other ≠ slot → ((state.setMem mem).setProc slot
      (state.procs slot).freed).procs other = state.procs other :=
    fun other differs => setProc_procs_of_ne differs _
  have differs : ∀ other, (((state.setMem mem).setProc slot
      (state.procs slot).freed).procs other).state ≠ .unused →
      other ≠ slot := by
    intro other isUsed' same
    rw [same, setProc_procs_self] at isUsed'
    exact isUsed' rfl
  have slots : SlotsHold ((state.setMem mem).setProc slot
      (state.procs slot).freed) := by
    constructor
    · intro other isUsed'
      have notSlot := differs other isUsed'
      rw [others other notSlot] at isUsed' ⊢
      exact spaces.slots.used other isUsed'
    · intro other isUnused
      by_cases same : other = slot
      · rw [same, setProc_procs_self]
        exact ⟨rfl, rfl⟩
      · rw [others other same] at isUnused ⊢
        exact spaces.slots.unused other isUnused
    · intro other isUsed' va inside
      have notSlot := differs other isUsed'
      rw [others other notSlot] at isUsed' inside ⊢
      have valid := spaces.slots.heap other isUsed' va inside
      exact (congrArg isValid (ptes other va notSlot)).trans valid
    · intro other isUsed'
      have notSlot := differs other isUsed'
      rw [others other notSlot] at isUsed' ⊢
      exact spaces.slots.low other isUsed'
    · intro other
      by_cases same : other = slot
      · rw [same, setProc_procs_self]
        exact spaces.slots.stack slot
      · rw [others other same]
        exact spaces.slots.stack other
    · rw [others procZero (Ne.symm notZero)]
      exact spaces.slots.zero
  have roots := ownerRoot_setProc (state.setMem mem) slot
    (state.procs slot).freed
  have user := reclaimed.userMem
  have formed := reclaimed.formed
  change ownerRoot _ = Function.update (ownerRoot state) (.slot slot) 0 at roots
  rw [← roots] at user formed
  refine ⟨free', _, ⟨slots, user, formed, ?_, ?_, reclaimed.kernelPgtbl.trans
    spaces.kernelPgtbl, ?_, ?_⟩, ?_, ?_, ptes, ?_⟩
  · intro other
    by_cases same : other = slot
    · rw [same, setProc_procs_self]
      exact Function.update_self _ _ _
    · rw [others other same, ← spaces.trapframe]
      apply Function.update_of_ne
      intro sameHolder
      cases sameHolder
      exact same rfl
  · intro page owned
    have isHeld := spaces.kernelHeld page owned
    have notTf : Holder.trapframe (Owner.kernel page) ≠
        .trapframe (.slot slot) := nofun
    exact ⟨isHeld.1, (Function.update_of_ne notTf _ _).trans isHeld.2⟩
  · intro page isFixed
    have owned := kernel.owned_of_fixed page isFixed
    have kept := (pages _ (spaces.kernel_some owned) (by
      rintro (isTf | ⟨_, isUser⟩)
      · cases isTf
      · cases isUser)).2
    rw [(spaces.kernelHeld page owned).2] at kept
    exact (spaces.intact page isFixed).trans kept
  · intro other isUsed' va isHigh
    have notSlot := differs other isUsed'
    unfold pgtbls
    rw [others other notSlot] at isUsed' ⊢
    exact (ptes other va notSlot).trans
      (spaces.gates other isUsed' va isHigh)
  · exact reclaimed.kernelFree.trans (Function.update_self _ _ _)
  · rcases reclaimed.userFree with ⟨pages, nodup, isFree, members⟩
    refine ⟨pages, nodup, isFree, ?_⟩
    intro page
    rw [members]
    apply and_congr_right
    intro _
    have placed := tableAt_of_notTable spaces.user.tables
      (changedIn_giveBack state.mem _ true) (spaces.user.taken some).aligned
      (spaces.user.notTable _ some) (.slot slot)
    rw [atTf] at placed
    apply or_congr_left
    constructor
    · rintro ⟨path, bound, isTable⟩
      exact ⟨path, bound, (placed path bound).symm.trans isTable⟩
    · rintro ⟨path, bound, isTable⟩
      exact ⟨path, bound, (placed path bound).trans isTable⟩
  · exact pages

end Free

end Process
end WhuOs
