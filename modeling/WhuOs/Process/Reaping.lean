import WhuOs.Process.Life

/-!
# The end of a child

`proc_wait` gives back what a child had: its trapframe, its page tables and the
pages that were open to it, each of them once.  The memory of all others stays
as it is.
-/

namespace WhuOs
namespace Process

open Library
open Library.Bytes
open Mem
open Program (Runs)

/-- The page of a table of a process. -/
def IsTableOf (state : State) (slot : Pid) (page : UInt64) : Prop :=
  page ≠ 0 ∧ ∃ path, path.length ≤ 2 ∧
    tableAt state.mem.bytes (pgtbls state slot) path = page

/-- A page that is open to a process. -/
def IsUserPageOf (state : State) (slot : Pid) (page : UInt64) : Prop :=
  ∃ va, Aligned va ∧ UserMapped state slot va page

/-- The process in a slot is gone.  Its trapframe is on the free list of the
kernel, and its tables and the pages open to it are on that of users.  Other
processes find their memory where it was and, unless it is the one that waits,
as it was. -/
structure Reaped (slot curr : Pid) (before after : State) : Prop where
  lists : ∃ free free', FreeLists before.mem free ∧ FreeLists after.mem free' ∧
    free' true = (before.procs slot).tf :: free true ∧
    ∃ pages : List UInt64, pages.Nodup ∧ free' false = pages ++ free false ∧
      ∀ page, page ∈ pages ↔
        IsTableOf before slot page ∨ IsUserPageOf before slot page
  emptied : after.procs slot = (before.procs slot).freed
  others : ∀ other, other ≠ slot → after.procs other = before.procs other
  maps : ∀ other, other ≠ slot → (before.procs other).state ≠ .unused →
    ∀ va, translate after.mem.bytes (pgtbls after other) va =
      translate before.mem.bytes (pgtbls before other) va
  trapframes : ∀ other, other ≠ slot → (before.procs other).state ≠ .unused →
    Unchanged (before.procs other).tf before.mem.bytes after.mem.bytes
  contents : ∀ other, other ≠ slot → other ≠ curr → ∀ va pa,
    UserMapped before other va pa →
      after.mem.bytes pa.toNat = before.mem.bytes pa.toNat

variable {part : KernelPart} {state final : State} {mem : Mem.State}
  {free free' : Bool → List UInt64} {held held' : Holder Owner → UInt64}
  {slot curr : Pid}

/-- The user pages of a process are those that are open to it. -/
theorem Spaces.isUserPageOf_iff
    (spaces : Spaces part state free held)
    (owned : part.owned state.trampoline)
    (isUsed : (state.procs slot).state ≠ .unused) {page : UInt64} :
    IsUserPageOf state slot page ↔
      page ≠ 0 ∧ ∃ number < userPages,
        held (.user (.slot slot) number) = page := by
  constructor
  · rintro ⟨va, aligned, _, flags, found, isUser⟩
    rcases spaces.translate_user owned isUsed found isUser with
      ⟨low, _, isPage, some⟩
    have offset : va % 4096 = 0 := UInt64.toNat_inj.mp aligned
    rw [offset, UInt64.add_zero] at isPage
    rw [isPage]
    exact ⟨some, pageOf va, low, rfl⟩
  · rintro ⟨notNull, number, low, rfl⟩
    have small : number < 2 ^ 26 := Nat.lt_of_lt_of_le low (by decide)
    have isPage := pageOf_ofNat (show number < 2 ^ 27 by omega)
    have toNat : (UInt64.ofNat (4096 * number)).toNat = 4096 * number := by
      rw [UInt64.toNat_ofNat']
      omega
    have present : ownerRoot state (.slot slot) ≠ 0 :=
      (spaces.slots.used slot isUsed).1
    have isUserPage : pageOf (UInt64.ofNat (4096 * number)) < userPages := by
      rw [isPage]
      exact low
    have backed := spaces.user.backed (.slot slot)
      (UInt64.ofNat (4096 * number)) isUserPage
    rw [isPage] at backed
    have valid : isValid (pteAt state.mem.bytes (ownerRoot state (.slot slot))
        (UInt64.ofNat (4096 * number))) = true := by
      by_contra invalid
      apply notNull
      rw [backed.1, entryPage, if_neg invalid]
    have canonical : Canonical (UInt64.ofNat (4096 * number)) := by
      apply Or.inl
      omega
    have aligned : Aligned (UInt64.ofNat (4096 * number)) := by
      unfold Aligned
      omega
    have offset : UInt64.ofNat (4096 * number) % 4096 = 0 :=
      UInt64.toNat_inj.mp aligned
    have walk := Mem.translate_eq spaces.user.tables present
      (UInt64.ofNat (4096 * number))
    rw [if_pos canonical, leafOf, if_pos valid, offset, UInt64.add_zero]
      at walk
    rw [backed.1, entryPage, if_pos valid]
    refine ⟨_, aligned, isUsed, _, walk, ?_⟩
    rcases spaces.formed.userFlags (.slot slot) _ isUserPage valid with
      flags | flags
    · rw [flags]
      decide
    · rw [flags]
      decide

/-- Entries that stay give the translations that were. -/
theorem Spaces.translate_of_ptes
    (spaces : Spaces part state free held)
    (spaces' : Spaces part final free' held')
    (sameRoot : pgtbls final slot = pgtbls state slot)
    (present : pgtbls state slot ≠ 0)
    (ptes : ∀ va, pteAt final.mem.bytes (pgtbls state slot) va =
      pteAt state.mem.bytes (pgtbls state slot) va) (va : UInt64) :
    translate final.mem.bytes (pgtbls final slot) va =
      translate state.mem.bytes (pgtbls state slot) va := by
  have isRoot : ownerRoot state (.slot slot) ≠ 0 := present
  have isRoot' : ownerRoot final (.slot slot) ≠ 0 := by
    change pgtbls final slot ≠ 0
    rw [sameRoot]
    exact present
  have walk := Mem.translate_eq spaces.user.tables isRoot va
  have walk' := Mem.translate_eq spaces'.user.tables isRoot' va
  change translate state.mem.bytes (pgtbls state slot) va =
    if Canonical va then leafOf (pteAt state.mem.bytes (pgtbls state slot) va) va
    else none at walk
  change translate final.mem.bytes (pgtbls final slot) va =
    if Canonical va then leafOf (pteAt final.mem.bytes (pgtbls final slot) va) va
    else none at walk'
  rw [walk, walk', sameRoot, ptes va]

/-- A zombie is freed after its status was copied. -/
theorem Spaces.reaped
    (spaces : Spaces part state free held)
    (owned : part.owned state.trampoline)
    (isUsed : (state.procs slot).state ≠ .unused)
    (copied : StatusCopied part state curr free held mem)
    (spaces' : Spaces part final free' held')
    (freed : Freed slot (state.setMem mem) free held final free' held')
    {last : Mem.State} (isFinal : final =
      (state.setMem last).setProc slot (state.procs slot).freed) :
    Reaped slot curr state final := by
  have keeps : ∀ holder, held holder ≠ 0 → ¬Holder.IsOf slot holder →
      (∀ page, holder ≠ .user (.slot curr) page) →
      Unchanged (held holder) state.mem.bytes final.mem.bytes := by
    intro holder some notOf differs
    exact (copied.others holder some differs).trans
      (freed.pages holder some notOf).2
  have sameProc : ∀ other, other ≠ slot →
      final.procs other = state.procs other := by
    intro other differs
    rw [isFinal]
    exact setProc_procs_of_ne differs _
  constructor
  · refine ⟨free, free', spaces.user.lists, spaces'.user.lists,
      freed.kernelFree, ?_⟩
    rcases freed.userFree with ⟨pages, nodup, isFree, members⟩
    refine ⟨pages, nodup, isFree, ?_⟩
    intro page
    rw [members page, spaces.isUserPageOf_iff owned isUsed, IsTableOf,
      ← and_or_left]
    refine and_congr_right fun _ => or_congr_left ?_
    constructor
    · rintro ⟨path, bound, isTable⟩
      exact ⟨path, bound, (copied.tables (.slot slot) path bound).symm.trans
        isTable⟩
    · rintro ⟨path, bound, isTable⟩
      exact ⟨path, bound, (copied.tables (.slot slot) path bound).trans
        isTable⟩
  · rw [isFinal]
    exact setProc_procs_self _ _
  · exact sameProc
  · intro other differs isUsed' va
    have sameRoot : pgtbls final other = pgtbls state other :=
      congrArg Proc.pgtbl (sameProc other differs)
    apply spaces.translate_of_ptes spaces' sameRoot
      (spaces.slots.used other isUsed').1
    intro va'
    exact (freed.ptes other va' differs).trans
      (copied.ptes (.slot other) va')
  · intro other differs isUsed'
    have some := spaces.trapframe_some isUsed'
    rw [← spaces.trapframe other]
    apply keeps _ some
    · rintro (same | ⟨_, same⟩)
      · cases same
        exact differs rfl
      · cases same
    · nofun
  · intro other differs notCurr va pa mapped
    rcases spaces.userMapped_held owned mapped with ⟨some, inside⟩
    refine keeps _ some ?_ ?_ pa.toNat inside
    · rintro (same | ⟨_, same⟩)
      · cases same
      · cases same
        exact differs rfl
    · intro page same
      cases same
      exact notCurr rfl

/-- A process without children does not wait. -/
theorem procWait_noChild
    (none : ∀ slot, (state.procs slot).parent ≠ some curr) (addr : UInt64) :
    (procWait curr addr).Runs state .noChild state := by
  have noZombie : zombieChild state curr = .none := by
    apply List.find?_eq_none.mpr
    intro slot _
    rw [decide_eq_true_eq]
    exact fun isChild => none slot isChild.1
  have noChild : ¬((List.finRange nProc).any fun slot =>
      (state.procs slot).parent = some curr) = true := by
    rw [List.any_eq_true]
    rintro ⟨slot, _, isChild⟩
    exact none slot (of_decide_eq_true isChild)
  unfold procWait
  rw [Program.runs_bind]
  refine ⟨state, state, Program.runs_get.mpr ⟨rfl, rfl⟩, ?_⟩
  rw [noZombie]
  dsimp only
  rw [if_neg noChild]
  exact Program.runs_pure.mpr ⟨rfl, rfl⟩

end Process
end WhuOs
