import WhuOs.Fs.RefBalance
import WhuOs.Fs.DirTree
import WhuOs.Fs.Mkfs

/-!
# A fresh disk

On the image that `mkfs` writes without user files the root is the only
directory, its block is the only one in use, and nothing is cached.
-/

namespace WhuOs
namespace Fs

open Library
open Library.Bytes

variable {junk : Block} {inodeNum : UInt16}

/-! ## The inode table -/

theorem dinodeAt_mkfsState_root :
    (mkfsState junk).dinodeAt inodeRoot = rootDinode := by
  have block : diskIndex (inodeBlock inodeRoot) = 2 := by decide
  unfold State.dinodeAt
  rw [block]
  exact Dinode.decode_memmove zeroBlock 0 rootDinode

/-- Zero bytes are an unused inode. -/
theorem decode_zero
    {bytes : Bytes} {address : Nat}
    (zero : ∀ index < inodeDiskSize, bytes (address + index) = 0) :
    Dinode.decode bytes address = emptyInode.data := by
  apply Dinode.decode_of_encoded
  intro index small
  rw [zero index small]
  unfold Dinode.encode emptyInode
  split_ifs <;> simp [byteOf]

theorem dinodeAt_mkfsState_of_ne
    (other : inodeNum ≠ inodeRoot) (small : inodeNum.toNat < maxInodes) :
    (mkfsState junk).dinodeAt inodeNum = emptyInode.data := by
  have size : maxInodes = 2048 := rfl
  have inode : inodeDiskSize = 64 := rfl
  have notZero : inodeNum.toNat ≠ 0 := fun zero =>
    other (UInt16.toNat_inj.mp zero)
  unfold State.dinodeAt
  rw [diskIndex_inodeBlock]
  refine decode_zero fun index inside => ?_
  change mkfsDisk junk _ _ = 0
  unfold mkfsDisk
  rw [if_neg (by omega), if_neg (by omega)]
  split_ifs with first root
  · have offset : inodeOffset inodeNum = inodeNum.toNat % 16 * 64 := rfl
    rw [memmove_of_not_mem _ _ (by omega)]
    rfl
  · omega
  · rfl

theorem slotOf_mkfsState (used : inodeNum ≠ inodeNumUnused) :
    slotOf (mkfsState junk) inodeNum = none := by
  unfold slotOf
  rw [List.find?_eq_none]
  intro ip _
  rw [decide_eq_true_eq]
  exact Ne.symm used

theorem dinodeOf_mkfsState (used : inodeNum ≠ inodeNumUnused) :
    (mkfsState junk).dinodeOf inodeNum = (mkfsState junk).dinodeAt inodeNum := by
  unfold State.dinodeOf
  rw [slotOf_mkfsState used]

/-! ## Blocks -/

/-- The block of the root is the only one in use. -/
theorem root_mkfsState (root : Root) :
    (mkfsState junk).root root =
      if root = (inodeRoot, 0) then rootBlock else 0 := by
  obtain ⟨inodeNum, k⟩ := root
  unfold State.root
  split_ifs with small isRoot isRoot
  · obtain ⟨rfl, rfl⟩ := Prod.mk.inj isRoot
    rw [dinodeOf_mkfsState (by decide), dinodeAt_mkfsState_root]
    rfl
  · rw [dinodeOf_mkfsState (ne_unused_of_small small)]
    by_cases same : inodeNum = inodeRoot
    · subst same
      rw [dinodeAt_mkfsState_root]
      exact if_neg fun first => isRoot (by rw [show k = 0 from first])
    · rw [dinodeAt_mkfsState_of_ne same small]
      rfl
  · obtain ⟨rfl, -⟩ := Prod.mk.inj isRoot
    exact absurd (show inodeRoot.toNat < maxInodes by decide) small
  · rfl

theorem sound_mkfsState (junk : Block) : Sound (mkfsState junk) := by
  have place : ∀ (root : Root) (path : List ChildIndex),
      path.length ≤ rootHeight root →
      (mkfsState junk).place root path ≠ 0 →
      root = (inodeRoot, 0) ∧ path = [] := by
    intro root path bound present
    by_cases isRoot : root = (inodeRoot, 0)
    · subst isRoot
      exact ⟨rfl, List.eq_nil_of_length_eq_zero (Nat.le_zero.mp bound)⟩
    · refine absurd ?_ present
      change Forest.value 0 _ _ path = 0
      rw [root_mkfsState, if_neg isRoot, Forest.value_null]
  refine ⟨fun ip _ used => absurd rfl used, fun ip used => absurd rfl used,
    fun ip used => absurd rfl used, ⟨fun root path bound present => ?_,
      fun root root' path path' bound bound' present same => ?_⟩⟩
  · obtain ⟨rfl, rfl⟩ := place root path bound present
    rw [Forest.value_nil, root_mkfsState, if_pos rfl]
    have marked : bitAt firstBitmap 0 = true := by decide +kernel
    exact ⟨by decide, by decide, marked⟩
  · obtain ⟨rfl, rfl⟩ := place root path bound present
    have present' : (mkfsState junk).place root' path' ≠ 0 := by
      rw [show (mkfsState junk).place root' path' = _ from same.symm]
      exact present
    obtain ⟨rfl, rfl⟩ := place root' path' bound' present'
    exact ⟨rfl, rfl⟩

/-! ## Directories -/

theorem isDir_mkfsState :
    (mkfsState junk).IsDir inodeNum ↔ inodeNum = inodeRoot := by
  constructor
  · rintro ⟨small, _, linked⟩
    by_contra other
    rw [dinodeAt_mkfsState_of_ne other small] at linked
    exact linked rfl
  · rintro rfl
    refine ⟨by decide, ?_⟩
    rw [dinodeAt_mkfsState_root]
    exact ⟨rfl, by decide⟩

theorem entryOf_rootEntries (junk : Block) (entry : EntryIndex) :
    entryOf (rootEntries junk) entry =
      if entry.val = 0 then some (dot.bytes, inodeRoot)
      else if entry.val = 1 then some (dotDot.bytes, inodeRoot)
      else none := by
  have size : direntSize = 32 := rfl
  split_ifs with first second
  · obtain rfl : entry = 0 := Fin.ext first
    refine entryOf_eq_some.mpr ⟨by decide, ?_, rfl⟩
    refine takeWhile_ne_zero dot.noNul (by decide) (fun index inside => ?_) ?_
    · have zero : index = 0 := Nat.lt_one_iff.mp inside
      subst zero
      rfl
    · rfl
  · obtain rfl : entry = 1 := Fin.ext second
    refine entryOf_eq_some.mpr ⟨by decide, ?_, rfl⟩
    refine takeWhile_ne_zero dotDot.noNul (by decide)
      (fun index inside => ?_) ?_
    · have cases : index = 0 ∨ index = 1 := by
        have bound : index < 2 := inside
        omega
      rcases cases with rfl | rfl <;> rfl
    · rfl
  · refine entryOf_eq_none.mpr ?_
    refine takeWhile_ne_zero List.not_mem_nil (by decide)
      (fun index inside => absurd inside (Nat.not_lt_zero _)) ?_
    have behind : 64 ≤ direntSize * entry.val +
        2 + ([] : List UInt8).length := by
      rw [List.length_nil, size]
      omega
    unfold rootEntries
    rw [if_neg (by omega), if_neg (by omega)]

theorem dirTree_mkfsState (junk : Block) : DirTree (mkfsState junk) := by
  have block : (mkfsState junk).dirBlock inodeRoot = rootEntries junk := by
    unfold State.dirBlock
    rw [dinodeAt_mkfsState_root]
    rfl
  refine ⟨@Directories.Consistent.ofRoot _ _ EntryIndex _ _ _ _ 0 1
    dot_ne_dotDot ?_ isDir_mkfsState ?_ ?_, ?_, ?_⟩
  · intro dir entry used
    by_cases isRoot : dir = inodeRoot
    · subst isRoot
      rw [entries_of_isDir (isDir_mkfsState.mpr rfl), block,
        entryOf_rootEntries]
      simp only [true_and, Fin.ext_iff]
      split_ifs with first second
      · simp [first, eq_comm]
      · simp [second, eq_comm]
      · simp [first, second]
    · have none : (mkfsState junk).directories.entries dir entry = none :=
        if_neg fun isDir => isRoot (isDir_mkfsState.mp isDir)
      simp [none, isRoot]
  · rw [links_of_small (by decide), dinodeAt_mkfsState_root]
    rfl
  · intro node other
    unfold State.directories
    simp only
    split_ifs with small
    · rw [dinodeAt_mkfsState_of_ne other small]
      rfl
    · rfl
  · intro dir isDir
    rw [isDir_mkfsState.mp isDir, dinodeAt_mkfsState_root]
    decide
  · intro node small linked
    by_cases isRoot : node = inodeRoot
    · rw [isRoot]
      exact (by decide +kernel : bitAt firstBitmap 0 = true)
    · rw [dinodeAt_mkfsState_of_ne isRoot small] at linked
      exact absurd rfl linked

theorem live_bootKernel (junk : Block) :
    Live (fun _ => 0) (openCount (bootKernel junk)) [] (mkfsState junk) := by
  have accounted := (booted_bootKernel junk).accounted
  have noRefs : refOf (mkfsState junk) = fun _ => 0 := by
    funext inodeNum
    unfold refOf
    cases slotOf (mkfsState junk) inodeNum <;> rfl
  refine ⟨sound_mkfsState junk, ?_, fun ip used => absurd rfl used, rfl⟩
  rw [← noRefs]
  exact accounted.references

end Fs
end WhuOs
