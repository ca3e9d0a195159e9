import WhuOs.Library.Directories
import WhuOs.Fs.Steps

/-!
# The directory tree on disk

The inodes on disk and the blocks of the directories among them make up a
directory tree.  A path is followed in it by name, and `search_inode` finds the
inode that it leads to.
-/

namespace WhuOs
namespace Fs

open Library
open Program (Runs)

variable {state middle final : State} {opened : Slot → Nat}
variable {base : UInt16 → Nat} {held : List Slot} {ip : Slot}
variable {inodeNum : UInt16}

/-! ## Directories -/

instance finite_uint16 : Finite UInt16 :=
  Finite.of_injective UInt16.toFin fun _ _ => UInt16.toFin_inj.mp

/-- A directory with links. -/
def State.IsDir (state : State) (inodeNum : UInt16) : Prop :=
  inodeNum.toNat < maxInodes ∧ (state.dinodeAt inodeNum).type = ftDir ∧
    (state.dinodeAt inodeNum).nlink ≠ 0

instance (state : State) (inodeNum : UInt16) :
    Decidable (state.IsDir inodeNum) :=
  inferInstanceAs (Decidable (_ ∧ _))

/-- The block of a directory. -/
def State.dirBlock (state : State) (inodeNum : UInt16) : Block :=
  state.disk (diskIndex ((state.dinodeAt inodeNum).addrs 0))

/-- The directories on disk. -/
def State.directories (state : State) :
    Directories UInt16 (List UInt8) EntryIndex where
  entries inodeNum entry :=
    if state.IsDir inodeNum then entryOf (state.dirBlock inodeNum) entry
    else none
  isDir := state.IsDir
  links inodeNum :=
    if inodeNum.toNat < maxInodes then (state.dinodeAt inodeNum).nlink.toNat
    else 0

/-- The directories form a tree, each has a block, and the numbers of inodes
with links are marked. -/
structure DirTree (state : State) : Prop where
  consistent : Directories.Consistent dot.bytes dotDot.bytes inodeRoot
    state.directories
  block : ∀ inodeNum, state.IsDir inodeNum →
    (state.dinodeAt inodeNum).addrs 0 ≠ 0
  marked : ∀ inodeNum : UInt16, inodeNum.toNat < maxInodes →
    (state.dinodeAt inodeNum).nlink ≠ 0 →
    bitAt state.inodeBitmap inodeNum.toNat = true

theorem entries_of_isDir (isDir : state.IsDir inodeNum) (entry : EntryIndex) :
    state.directories.entries inodeNum entry =
      entryOf (state.dirBlock inodeNum) entry :=
  if_pos isDir

theorem links_of_small (small : inodeNum.toNat < maxInodes) :
    state.directories.links inodeNum = (state.dinodeAt inodeNum).nlink.toNat :=
  if_pos small

theorem small_of_links (linked : state.directories.links inodeNum ≠ 0) :
    inodeNum.toNat < maxInodes ∧ (state.dinodeAt inodeNum).nlink ≠ 0 := by
  by_cases small : inodeNum.toNat < maxInodes
  · rw [links_of_small small] at linked
    exact ⟨small, fun zero => linked (by rw [zero]; rfl)⟩
  · exact absurd (if_neg small) linked

theorem links_ne_zero
    (small : inodeNum.toNat < maxInodes)
    (linked : (state.dinodeAt inodeNum).nlink ≠ 0) :
    state.directories.links inodeNum ≠ 0 := by
  rw [links_of_small small]
  exact fun zero => linked (UInt16.toNat_inj.mp zero)

theorem directories_congr (same : final.disk = state.disk) :
    final.directories = state.directories := by
  obtain ⟨disk, _, _, _⟩ := state
  obtain ⟨disk', _, _, _⟩ := final
  change disk' = disk at same
  subst same
  rfl

/-- The tree depends on the disk only. -/
theorem DirTree.congr (tree : DirTree state) (same : final.disk = state.disk) :
    DirTree final := by
  obtain ⟨disk, _, _, _⟩ := state
  obtain ⟨disk', _, _, _⟩ := final
  change disk' = disk at same
  subst same
  exact ⟨tree.consistent, tree.block, tree.marked⟩

/-- There are not more inodes than the inode table has. -/
theorem ncard_small_le : {n : UInt16 | n.toNat < maxInodes}.ncard ≤ maxInodes := by
  have listed : {n : UInt16 | n.toNat < maxInodes} ⊆
      ((Finset.range maxInodes).image UInt16.ofNat : Finset UInt16) := by
    intro number small
    rw [Finset.mem_coe, Finset.mem_image]
    exact ⟨number.toNat, Finset.mem_range.mpr small, UInt16.ofNat_toNat⟩
  refine (Set.ncard_le_ncard listed (Finset.finite_toSet _)).trans ?_
  rw [Set.ncard_coe_finset]
  exact Finset.card_image_le.trans (Finset.card_range _).le

/-- A directory has room for another link. -/
theorem DirTree.dir_links_le
    (tree : DirTree state) (isDir : state.IsDir inodeNum) :
    (state.dinodeAt inodeNum).nlink.toNat ≤ 2049 := by
  have size : maxInodes = 2048 := rfl
  have links := tree.consistent.dirLinks isDir
  rw [links_of_small isDir.1] at links
  have below : state.directories.children dotDot.bytes inodeRoot inodeNum ⊆
      {n : UInt16 | n.toNat < maxInodes} := fun child isChild => isChild.1.1
  have few := (Set.ncard_le_ncard below (Set.toFinite _)).trans ncard_small_le
  omega

/-! ## The cache and the disk -/

/-- The current fields of an inode have at least the block numbers on disk. -/
theorem Sound.backs
    (sound : Sound state) (small : inodeNum.toNat < maxInodes) :
    Backs (state.dinodeAt inodeNum) (state.dinodeOf inodeNum) := by
  unfold State.dinodeOf
  cases found : slotOf state inodeNum with
  | none => exact Backs.refl _
  | some slot =>
      have number := slotOf_eq_some found
      have used : (state.icache slot).inodeNum ≠ inodeNumUnused :=
        number.symm ▸ ne_unused_of_small small
      have backs := sound.backs_locked used
      rwa [number] at backs

/-- A block number on disk is a current one. -/
theorem Sound.root_of_stored
    (sound : Sound state) (small : inodeNum.toNat < maxInodes)
    {k : Fin nAddrs} (present : (state.dinodeAt inodeNum).addrs k ≠ 0) :
    state.root (inodeNum, k) = (state.dinodeAt inodeNum).addrs k := by
  unfold State.root
  rw [if_pos small]
  exact (((sound.backs small).addrs k).resolve_right present).symm

/-- The block of a directory is marked. -/
theorem Sound.marked_first
    (sound : Sound state) (small : inodeNum.toNat < maxInodes)
    (present : (state.dinodeAt inodeNum).addrs 0 ≠ 0) :
    state.Marked ((state.dinodeAt inodeNum).addrs 0) := by
  have place : state.place (inodeNum, 0) [] = (state.dinodeAt inodeNum).addrs 0 :=
    sound.root_of_stored small present
  have marked := sound.marked_place (Nat.zero_le _) (place.symm ▸ present)
  rwa [place] at marked

/-- The block of a directory that is kept. -/
theorem Kept.dirBlock
    (kept : Kept opened state final inodeNum) (sound : Sound state)
    (sound' : Sound final) (small : inodeNum.toNat < maxInodes)
    (present : (state.dinodeAt inodeNum).addrs 0 ≠ 0) :
    final.dirBlock inodeNum = state.dirBlock inodeNum := by
  have root := sound.root_of_stored small present
  have root' : final.root (inodeNum, 0) = _ :=
    sound'.root_of_stored small (kept.stored.symm ▸ present)
  rw [kept.stored] at root'
  have place : state.place (inodeNum, 0) [] =
      (state.dinodeAt inodeNum).addrs 0 := root
  have disk := (kept.blocks 0 [] (Nat.zero_le _) (root'.trans root.symm)).2
    (place.symm ▸ present)
  unfold State.dirBlock
  rw [kept.stored, ← place]
  exact disk

theorem Kept.isDir (kept : Kept opened state final inodeNum) :
    final.IsDir inodeNum ↔ state.IsDir inodeNum := by
  unfold State.IsDir
  rw [kept.stored]

theorem Kept.links (kept : Kept opened state final inodeNum) :
    final.directories.links inodeNum = state.directories.links inodeNum := by
  show (if _ then _ else _) = (if _ then _ else _)
  rw [kept.stored]

/-- The entries of a directory that is kept. -/
theorem Kept.entries
    (kept : Kept opened state final inodeNum) (tree : DirTree state)
    (sound : Sound state) (sound' : Sound final) (entry : EntryIndex) :
    final.directories.entries inodeNum entry =
      state.directories.entries inodeNum entry := by
  by_cases isDir : state.IsDir inodeNum
  · rw [entries_of_isDir isDir, entries_of_isDir (kept.isDir.mpr isDir),
      kept.dirBlock sound sound' isDir.1 (tree.block inodeNum isDir)]
  · exact (if_neg fun isDir' => isDir (kept.isDir.mp isDir')).trans
      (if_neg isDir).symm

/-- What the tree has for an inode that is kept. -/
structure SameNode (state final : State) (inodeNum : UInt16) : Prop where
  isDir : final.IsDir inodeNum ↔ state.IsDir inodeNum
  links : final.directories.links inodeNum = state.directories.links inodeNum
  entries : ∀ entry, final.directories.entries inodeNum entry =
    state.directories.entries inodeNum entry

theorem Frame.sameNode
    {changed : UInt16 → Prop} (frame : Frame opened changed state final)
    (tree : DirTree state) (sound : Sound state) (sound' : Sound final)
    (other : ¬changed inodeNum) : SameNode state final inodeNum := by
  by_cases small : inodeNum.toNat < maxInodes
  · have kept := frame.kept inodeNum small other
    exact ⟨kept.isDir, kept.links, kept.entries tree sound sound'⟩
  · refine ⟨⟨fun isDir => absurd isDir.1 small,
      fun isDir => absurd isDir.1 small⟩, ?_, fun entry => ?_⟩
    · exact (if_neg small).trans (if_neg small).symm
    · exact (if_neg fun isDir => small isDir.1).trans
        (if_neg fun isDir => small isDir.1).symm

/-- Everything but the shape of the tree, from what a call changes. -/
theorem DirTree.of_frame
    {changed : UInt16 → Prop} (tree : DirTree state)
    (frame : Frame opened changed state final)
    (consistent : Directories.Consistent dot.bytes dotDot.bytes inodeRoot
      final.directories)
    (block : ∀ inodeNum, changed inodeNum → final.IsDir inodeNum →
      (final.dinodeAt inodeNum).addrs 0 ≠ 0)
    (marked : ∀ inodeNum, changed inodeNum →
      bitAt final.inodeBitmap inodeNum.toNat = true) : DirTree final := by
  refine ⟨consistent, fun inodeNum isDir => ?_, fun inodeNum small linked => ?_⟩
  · by_cases isChanged : changed inodeNum
    · exact block inodeNum isChanged isDir
    · have kept := frame.kept inodeNum isDir.1 isChanged
      rw [kept.stored]
      exact tree.block inodeNum (kept.isDir.mp isDir)
  · by_cases isChanged : changed inodeNum
    · exact marked inodeNum isChanged
    · rw [(frame.kept inodeNum small isChanged).stored] at linked
      exact frame.bits _ (tree.marked inodeNum small linked)

/-- The block in a filled slot is the one on disk. -/
theorem Sound.slot_first
    (sound : Sound state)
    (used : (state.icache ip).inodeNum ≠ inodeNumUnused)
    (valid : (state.icache ip).valid = true)
    (present : (state.dinodeAt (state.icache ip).inodeNum).addrs 0 ≠ 0) :
    (state.icache ip).data.addrs 0 =
      (state.dinodeAt (state.icache ip).inodeNum).addrs 0 := by
  rw [← sound.root_of_stored (sound.small ip used) present,
    sound.root_eq used valid]

theorem Sound.dirData
    (sound : Sound state)
    (used : (state.icache ip).inodeNum ≠ inodeNumUnused)
    (valid : (state.icache ip).valid = true)
    (present : (state.dinodeAt (state.icache ip).inodeNum).addrs 0 ≠ 0) :
    state.dirData ip = state.dirBlock (state.icache ip).inodeNum := by
  unfold State.dirData State.dirBlock
  rw [sound.slot_first used valid present]

/-- The kind of an inode in a filled slot is the one on disk. -/
theorem Sound.slot_type
    (sound : Sound state)
    (used : (state.icache ip).inodeNum ≠ inodeNumUnused)
    (valid : (state.icache ip).valid = true) :
    (state.icache ip).data.type =
      (state.dinodeAt (state.icache ip).inodeNum).type :=
  (sound.backed ip used valid).type.symm

end Fs
end WhuOs
