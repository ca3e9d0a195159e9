import WhuOs.Mem.Reclaim

/-!
# Retiring an address space

`proc_free` gives the trapframe back, and `uvm_destroy_pgtbl` drops the mappings
of the trampoline and the trapframe before it reclaims what is left.
-/

namespace WhuOs
namespace Mem

open Library
open Library.Bytes
open Program (Runs)

variable {ρ : Type} [DecidableEq ρ] {root : ρ → UInt64}
  {mem mem' mem'' : State} {free free' : Bool → List UInt64}
  {held : Holder ρ → UInt64} {r : ρ} {va : UInt64}

/-- A trapframe is given back. -/
theorem UserMem.giveBack_trapframe
    (user : UserMem mem root free held) (some : held (.trapframe r) ≠ 0)
    (inKernel : Bool) :
    UserMem (mem.giveBack (held (.trapframe r)) inKernel) root
      (Function.update free inKernel (held (.trapframe r) :: free inKernel))
      (Function.update held (.trapframe r) 0) := by
  refine ⟨user.toHolds.giveBack some inKernel, ?_, ?_⟩
  · intro r' va isUser
    have differs : Holder.user r' (pageOf va) ≠ .trapframe r := nofun
    rw [user.pteAt_giveBack some inKernel, Function.update_of_ne differs]
    exact user.backed r' va isUser
  · have differs : Holder.scratch ≠ Holder.trapframe r := nofun
    rw [Function.update_of_ne differs]
    exact user.scratch

omit [DecidableEq ρ] in
theorem Formed.giveBack
    (formed : Formed mem.bytes root) (user : UserMem mem root free held)
    {holder : Holder ρ} (some : held holder ≠ 0) (inKernel : Bool) :
    Formed (mem.giveBack (held holder) inKernel).bytes root :=
  formed.write user.toHolds some (changedIn_giveBack mem _ inKernel)

/-- What may have changed when a page above the user pages was unmapped. -/
structure Dropped (root : ρ → UInt64) (r : ρ) (page : Nat) (mem : State)
    (held : Holder ρ → UInt64) (mem' : State) : Prop where
  gone : ∀ va, pageOf va = page →
    isValid (pteAt mem'.bytes (root r) va) = false
  outside : ∀ r' va, ¬(r' = r ∧ pageOf va = page) →
    pteAt mem'.bytes (root r') va = pteAt mem.bytes (root r') va
  tables : ∀ r' path, path.length ≤ 2 →
    tableAt mem'.bytes (root r') path = tableAt mem.bytes (root r') path
  kernelPgtbl : mem'.kernelPgtbl = mem.kernelPgtbl
  pages : ∀ holder, held holder ≠ 0 →
    Unchanged (held holder) mem.bytes mem'.bytes

section DropMapping

variable (user : UserMem mem root free held) (present : root r ≠ 0)

include user present

/-- A page above the user pages is unmapped. -/
theorem UserMem.dropMapping
    (formed : Formed mem.bytes root) (isHigh : userPages ≤ pageOf va)
    (run : (dropMapping (root r) va).Runs mem () mem') :
    UserMem mem' root free held ∧ Formed mem'.bytes root ∧
      Dropped root r (pageOf va) mem held mem' := by
  rcases (lookup_runs user.tables present run).2 with
    ⟨invalid, skipped⟩ | ⟨valid, stores⟩
  · rcases Program.runs_pure.mp skipped with ⟨_, rfl⟩
    refine ⟨user, formed, ?_, fun _ _ _ => rfl, fun _ _ _ => rfl, rfl,
      fun _ _ _ _ => rfl⟩
    intro va' samePage
    rw [pteAt_congr samePage]
    exact invalid
  · have below := tableAt_of_isValid valid
    rcases (store_entryPointer user.tables below 0).deterministic stores with
      ⟨_, rfl⟩
    have mapped := Mapped.storeLeaf 0 user.tables user.lists below
    have backed : Backed (mem.setBytes (storeEntry mem.bytes
        (tableAt mem.bytes (root r) (pathTo va 0)) (vpn va 0) 0)).bytes root
        held := by
      intro r' va' isUser
      rw [mapped.outside r' va' fun inside => by omega]
      exact user.backed r' va' isUser
    refine ⟨⟨user.toHolds.grown mapped.toGrown, backed, user.scratch⟩, ?_, ?_,
      ?_, ?_, rfl, ?_⟩
    · exact formed.mapped (user.freeRam true) mapped nofun
    · intro va' samePage
      rw [mapped.inside 0 Nat.one_pos va' samePage]
      rfl
    · intro r' va' outside
      exact mapped.outside r' va' fun inside => outside ⟨inside.1, by omega⟩
    · intro r' path bound
      exact tableAt_storeLeaf user.tables r' path bound
    · intro holder some
      exact user.unchanged_grown mapped.toGrown some

/-- `uvm_destroy_pgtbl` reclaims an address space in which nothing is mapped
above the trapframe but the trampoline. -/
theorem UserMem.retire
    (formed : Formed mem.bytes root)
    (gated : ∀ va, userPages ≤ pageOf va → pageOf va ≠ pageOf trampolineVa →
      pageOf va ≠ pageOf trapframeVa →
      isValid (pteAt mem.bytes (root r) va) = false)
    (run : (uvmDestroyPgtbl (root r) 3).Runs mem () mem') :
    ∃ free', Reclaimed root r mem free held mem' free' := by
  unfold uvmDestroyPgtbl at run
  rw [if_neg present] at run
  simp only [Program.runs_bind] at run
  rcases run with ⟨_, mem₁, drops₁, _, mem₂, drops₂, destroys⟩
  rcases user.dropMapping present formed (by decide) drops₁ with
    ⟨user₁, formed₁, dropped₁⟩
  rcases user₁.dropMapping present formed₁ (by decide) drops₂ with
    ⟨user₂, formed₂, dropped₂⟩
  have high : NothingHigh mem₂.bytes (root r) := by
    intro va isHigh
    by_cases atTrapframe : pageOf va = pageOf trapframeVa
    · exact dropped₂.gone va atTrapframe
    · rw [dropped₂.outside r va fun both => atTrapframe both.2]
      by_cases atTrampoline : pageOf va = pageOf trampolineVa
      · exact dropped₁.gone va atTrampoline
      · rw [dropped₁.outside r va fun both => atTrampoline both.2]
        exact gated va isHigh atTrampoline atTrapframe
  rcases user₂.reclaim high present formed₂ with
    ⟨final, free', reclaims, reclaimed⟩
  rcases reclaims.deterministic destroys with ⟨_, rfl⟩
  have tables : ∀ path, path.length ≤ 2 →
      tableAt mem₂.bytes (root r) path = tableAt mem.bytes (root r) path :=
    fun path bound =>
      (dropped₂.tables r path bound).trans (dropped₁.tables r path bound)
  refine ⟨free', reclaimed.userMem, reclaimed.formed, reclaimed.kernelFree, ?_,
    ?_, ?_, ?_⟩
  · rcases reclaimed.userFree with ⟨pages, nodup, isFree, members⟩
    refine ⟨pages, nodup, isFree, ?_⟩
    intro page
    rw [members]
    apply and_congr_right
    intro _
    apply or_congr_left
    constructor
    · rintro ⟨path, bound, isTable⟩
      exact ⟨path, bound, (tables path bound).symm.trans isTable⟩
    · rintro ⟨path, bound, isTable⟩
      exact ⟨path, bound, (tables path bound).trans isTable⟩
  · exact reclaimed.kernelPgtbl.trans
      (dropped₂.kernelPgtbl.trans dropped₁.kernelPgtbl)
  · intro r' va other
    rw [reclaimed.ptes r' va other,
      dropped₂.outside r' va fun both => other both.1,
      dropped₁.outside r' va fun both => other both.1]
  · intro holder some other
    exact ((dropped₁.pages holder some).trans
      (dropped₂.pages holder some)).trans (reclaimed.pages holder some other)

end DropMapping

end Mem
end WhuOs
