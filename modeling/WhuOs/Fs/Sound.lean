import WhuOs.Fs.Locate
import WhuOs.Fs.View

/-!
# Ownership of blocks

The block numbers of all inodes and the index blocks below them form a forest.
In a sound file system every block of the forest is a data block whose bit is
set and has one place, and the inodes on disk have no block numbers that their
slots in the cache do not have.
-/

namespace WhuOs
namespace Fs

open Library
open Library.Forest (value)
open Program (Runs)

variable {state final : State}

/-- A block number of an inode. -/
abbrev Root := UInt16 × Fin nAddrs

/-- Levels of index blocks below a block number. -/
def rootHeight (root : Root) : Nat := addrLevel root.2

/-- The current value of a block number of an inode. -/
def State.root (state : State) (root : Root) : UInt32 :=
  if root.1.toNat < maxInodes then (state.dinodeOf root.1).addrs root.2 else 0

/-- Fields that agree up to the size and block numbers that are not stored. -/
structure Backs (stored current : Dinode) : Prop where
  type : stored.type = current.type
  major : stored.major = current.major
  minor : stored.minor = current.minor
  nlink : stored.nlink = current.nlink
  addrs : ∀ k, stored.addrs k = current.addrs k ∨ stored.addrs k = 0

theorem Backs.refl (dinode : Dinode) : Backs dinode dinode :=
  ⟨rfl, rfl, rfl, rfl, fun _ => Or.inl rfl⟩

theorem Backs.trans
    {first second third : Dinode}
    (lower : Backs first second) (upper : Backs second third) :
    Backs first third := by
  refine ⟨lower.type.trans upper.type, lower.major.trans upper.major,
    lower.minor.trans upper.minor, lower.nlink.trans upper.nlink,
    fun k => ?_⟩
  rcases lower.addrs k with same | zero
  · rcases upper.addrs k with same' | zero'
    · exact Or.inl (same.trans same')
    · exact Or.inr (same.trans zero')
  · exact Or.inr zero

/-- Each inode has one slot, slots are used for inodes of the table, filled
slots agree with the disk up to what is not stored yet, and the blocks of all
inodes are marked and have one place. -/
structure Sound (state : State) : Prop where
  unique : UniqueSlots state
  small : ∀ ip, (state.icache ip).inodeNum ≠ inodeNumUnused →
    (state.icache ip).inodeNum.toNat < maxInodes
  backed : ∀ ip, (state.icache ip).inodeNum ≠ inodeNumUnused →
    (state.icache ip).valid = true →
    Backs (state.dinodeAt (state.icache ip).inodeNum) (state.icache ip).data
  forest : Forest.Sound 0 rootHeight state.root state.child state.Marked

/-- An inode of the table is not the number of unused slots. -/
theorem ne_unused_of_small
    {inodeNum : UInt16} (small : inodeNum.toNat < maxInodes) :
    inodeNum ≠ inodeNumUnused := by
  rintro rfl
  exact absurd small (by decide)

/-- What a slot stands for has at least the block numbers on disk. -/
theorem Sound.backs_locked
    (sound : Sound state) {ip : Slot}
    (used : (state.icache ip).inodeNum ≠ inodeNumUnused) :
    Backs (state.dinodeAt (state.icache ip).inodeNum)
      (state.locked ip).data := by
  by_cases valid : (state.icache ip).valid = true
  · rw [locked_data_of_valid valid]
    exact sound.backed ip used valid
  · have fromDisk : (state.locked ip).data =
        state.dinodeAt (state.icache ip).inodeNum := if_neg valid
    rw [fromDisk]
    exact Backs.refl _

/-! ## Changes of the cache -/

/-- Block numbers may be dropped from the current fields. -/
theorem forest_drop
    (forest : Forest.Sound 0 rootHeight state.root state.child state.Marked)
    (sameDisk : final.disk = state.disk)
    (fewer : ∀ inodeNum : UInt16, inodeNum.toNat < maxInodes → ∀ k,
      (final.dinodeOf inodeNum).addrs k =
        (state.dinodeOf inodeNum).addrs k ∨
      (final.dinodeOf inodeNum).addrs k = 0) :
    Forest.Sound 0 rootHeight final.root final.child final.Marked := by
  have sameChild : final.child = state.child := by
    funext block index
    unfold State.child
    rw [sameDisk]
  have sameMarks : final.Marked = state.Marked :=
    State.marked_congr (by rw [sameDisk])
  have roots : ∀ root, final.root root = state.root root ∨
      final.root root = 0 := by
    intro root
    unfold State.root
    split
    · next small => exact fewer root.1 small root.2
    · exact Or.inr rfl
  rw [sameChild, sameMarks]
  refine forest.restrict (fun root path _ => ?_) fun _ _ _ _ marked => marked
  rcases roots root with same | zero
  · exact Or.inl (by rw [same])
  · exact Or.inr (by rw [zero, Forest.value_null])

/-- A change of a slot that keeps its inode, agrees with the disk and adds no
block number. -/
theorem Sound.setInode
    (sound : Sound state) {ip : Slot} {inode : Inode}
    (used : (state.icache ip).inodeNum ≠ inodeNumUnused)
    (sameNum : inode.inodeNum = (state.icache ip).inodeNum)
    (backed : inode.valid = true →
      Backs (state.dinodeAt (state.icache ip).inodeNum) inode.data)
    (fewer : ∀ k, (if inode.valid then inode.data
        else state.dinodeAt (state.icache ip).inodeNum).addrs k =
          (state.locked ip).data.addrs k ∨
      (if inode.valid then inode.data
        else state.dinodeAt (state.icache ip).inodeNum).addrs k = 0) :
    Sound (state.setInode ip inode) := by
  have numbers : ∀ other, ((state.setInode ip inode).icache other).inodeNum =
      (state.icache other).inodeNum := inodeNum_setInode sameNum
  refine ⟨sound.unique.congr numbers, ?_, ?_, ?_⟩
  · intro other otherUsed
    rw [numbers] at otherUsed ⊢
    exact sound.small other otherUsed
  · intro other otherUsed valid
    rw [numbers] at otherUsed ⊢
    by_cases same : other = ip
    · subst same
      simp only [State.setInode_icache, Function.update_self] at valid ⊢
      exact backed valid
    · simp only [State.setInode_icache, Function.update_of_ne same] at valid ⊢
      exact sound.backed other otherUsed valid
  · refine forest_drop sound.forest rfl fun inodeNum _ k => ?_
    rw [dinodeOf_setInode sound.unique used sameNum]
    by_cases same : inodeNum = (state.icache ip).inodeNum
    · rw [same, Function.update_self, dinodeOf_slot sound.unique used]
      exact fewer k
    · rw [Function.update_of_ne same]
      exact Or.inl rfl

/-- Two states with the same disk and the same current fields. -/
def SameFields (state final : State) : Prop :=
  final.disk = state.disk ∧ final.dinodeOf = state.dinodeOf

/-- A change of a slot that keeps its inode and fields. -/
theorem Sound.setSameInode
    (sound : Sound state) {ip : Slot} {inode : Inode}
    (used : (state.icache ip).inodeNum ≠ inodeNumUnused)
    (sameNum : inode.inodeNum = (state.icache ip).inodeNum)
    (sameData : (if inode.valid then inode.data
      else state.dinodeAt (state.icache ip).inodeNum) =
        (state.locked ip).data) :
    Sound (state.setInode ip inode) ∧
      SameFields state (state.setInode ip inode) := by
  refine ⟨sound.setInode used sameNum (fun valid => ?_) fun k => ?_, rfl,
    dinodeOf_setInode_same sound.unique used sameNum sameData⟩
  · rw [if_pos valid] at sameData
    rw [sameData]
    exact sound.backs_locked used
  · rw [sameData]
    exact Or.inl rfl

/-- Two states with the same disk whose fields may have gone back to those on
disk. -/
structure Reverts (state final : State) : Prop where
  disk : final.disk = state.disk
  fields : ∀ inodeNum : UInt16, inodeNum.toNat < maxInodes →
    Backs (final.dinodeOf inodeNum) (state.dinodeOf inodeNum)

theorem Reverts.refl (state : State) : Reverts state state :=
  ⟨rfl, fun _ _ => Backs.refl _⟩

theorem Reverts.trans
    {middle : State} (first : Reverts state middle)
    (second : Reverts middle final) : Reverts state final :=
  ⟨second.disk.trans first.disk, fun inodeNum small =>
    (second.fields inodeNum small).trans (first.fields inodeNum small)⟩

theorem SameFields.reverts (same : SameFields state final) :
    Reverts state final := by
  refine ⟨same.1, fun inodeNum _ => ?_⟩
  rw [same.2]
  exact Backs.refl _

/-- Getting a slot for an inode of the table. -/
theorem Sound.alloc
    (sound : Sound state) {inodeNum : UInt16} {ip : Slot}
    (small : inodeNum.toNat < maxInodes)
    (run : (inodeAlloc inodeNum).Runs state ip final) :
    Sound final ∧ Reverts state final ∧
      (final.icache ip).inodeNum = inodeNum := by
  have newUsed := ne_unused_of_small small
  rcases inodeAlloc_runs run with ⟨number, rfl⟩ | ⟨absent, _, rfl⟩
  · have used : (state.icache ip).inodeNum ≠ inodeNumUnused := by
      rwa [number]
    obtain ⟨sound', same⟩ := sound.setSameInode used
      (show ((state.icache ip).setRef
        ((state.icache ip).ref + 1)).inodeNum = _ from rfl) rfl
    exact ⟨sound', same.reverts, by simpa using number⟩
  · have unique : UniqueSlots (state.takeOver ip inodeNum) :=
      sound.unique.takeOver absent
    have fields : ∀ other : UInt16, other.toNat < maxInodes →
        Backs ((state.takeOver ip inodeNum).dinodeOf other)
          (state.dinodeOf other) := by
      intro other otherSmall
      have otherUsed := ne_unused_of_small otherSmall
      rcases dinodeOf_takeOver ip sound.unique absent otherUsed with
        same | ⟨rfl, fromDisk⟩
      · rw [same]
        exact Backs.refl _
      · rw [fromDisk, dinodeOf_slot sound.unique otherUsed]
        exact sound.backs_locked otherUsed
    refine ⟨⟨unique, ?_, ?_, ?_⟩, ⟨rfl, fields⟩, by simp⟩
    · intro other otherUsed
      by_cases same : other = ip
      · subst same
        simpa using small
      · rw [State.setInode_icache, Function.update_of_ne same] at otherUsed ⊢
        exact sound.small other otherUsed
    · intro other otherUsed valid
      by_cases same : other = ip
      · subst same
        simp at valid
      · simp only [State.setInode_icache,
          Function.update_of_ne same] at otherUsed valid ⊢
        exact sound.backed other otherUsed valid
    · exact forest_drop sound.forest rfl fun other otherSmall =>
        (fields other otherSmall).addrs

/-- Locking fills a slot with the current fields of its inode. -/
theorem Sound.lock
    (sound : Sound state) {ip : Slot} {result : Unit}
    (used : (state.icache ip).inodeNum ≠ inodeNumUnused)
    (run : (inodeLock ip).Runs state result final) :
    Sound final ∧ SameFields state final := by
  obtain ⟨_, _, rfl⟩ := inodeLock_runs run
  exact sound.setSameInode used rfl rfl

theorem Sound.unlock
    (sound : Sound state) {ip : Slot} {result : Unit}
    (used : (state.icache ip).inodeNum ≠ inodeNumUnused)
    (run : (inodeUnlock ip).Runs state result final) :
    Sound final ∧ SameFields state final := by
  obtain ⟨_, rfl⟩ := inodeUnlock_runs run
  exact sound.setSameInode used rfl rfl

theorem Sound.free
    (sound : Sound state) {ip : Slot} {result : Unit}
    (used : (state.icache ip).inodeNum ≠ inodeNumUnused)
    (run : (inodeFree ip).Runs state result final) :
    Sound final ∧ SameFields state final := by
  obtain ⟨rfl, _⟩ := inodeFree_runs run
  exact sound.setSameInode used rfl rfl

theorem Sound.unlockFree
    (sound : Sound state) {ip : Slot} {result : Unit}
    (used : (state.icache ip).inodeNum ≠ inodeNumUnused)
    (run : (inodeUnlockFree ip).Runs state result final) :
    Sound final ∧ SameFields state final := by
  obtain ⟨_, rfl, _⟩ := inodeUnlockFree_runs run
  exact sound.setSameInode used rfl rfl

/-! ## Changes of the disk -/

/-- The block at a place of the forest. -/
abbrev State.place (state : State) (root : Root) (path : List ChildIndex) :
    UInt32 :=
  state.blockAt (state.root root) path

/-- The inode table is the same on two disks. -/
def SameTable (state final : State) : Prop :=
  ∀ index, 2 ≤ index → index < 130 → final.disk index = state.disk index

theorem SameTable.dinodeAt
    (same : SameTable state final) {inodeNum : UInt16}
    (small : inodeNum.toNat < maxInodes) :
    final.dinodeAt inodeNum = state.dinodeAt inodeNum := by
  have size : maxInodes = 2048 := rfl
  unfold State.dinodeAt
  rw [diskIndex_inodeBlock, same _ (by omega) (by omega)]

/-- The current fields of inodes of the table depend on the table and the
cache. -/
theorem SameTable.dinodeOf
    (same : SameTable state final) (sameCache : final.icache = state.icache)
    {inodeNum : UInt16} (small : inodeNum.toNat < maxInodes) :
    final.dinodeOf inodeNum = state.dinodeOf inodeNum := by
  have sameSlot : slotOf final inodeNum = slotOf state inodeNum :=
    slotOf_congr (fun ip => by rw [sameCache]) inodeNum
  unfold State.dinodeOf
  rw [sameSlot]
  cases found : slotOf state inodeNum with
  | none => exact same.dinodeAt small
  | some ip =>
      have number := slotOf_eq_some found
      simp only [State.locked, sameCache]
      rw [same.dinodeAt (number.symm ▸ small)]

theorem SameTable.root
    (same : SameTable state final) (sameCache : final.icache = state.icache) :
    final.root = state.root := by
  funext root
  unfold State.root
  split
  · next small => rw [same.dinodeOf sameCache small]
  · rfl

/-- Places are the same when the index blocks are not written. -/
theorem place_congr
    (sameRoot : final.root = state.root)
    (index : ∀ root path, path.length < rootHeight root →
      state.place root path ≠ 0 →
      final.disk (diskIndex (state.place root path)) =
        state.disk (diskIndex (state.place root path)))
    (root : Root) {path : List ChildIndex}
    (bound : path.length ≤ rootHeight root) :
    final.place root path = state.place root path := by
  unfold State.place State.blockAt
  rw [sameRoot]
  apply Forest.value_congr
  intro before next after split present
  have shorter : before.length < rootHeight root := by
    rw [split, List.length_append, List.length_cons] at bound
    omega
  exact congrFun (State.child_congr (index root before shorter present)) next

/-- A block of the forest is a data block. -/
theorem Sound.marked_place
    (sound : Sound state) {root : Root} {path : List ChildIndex}
    (bound : path.length ≤ rootHeight root)
    (present : state.place root path ≠ 0) :
    state.Marked (state.place root path) :=
  sound.forest.marked root path bound present

/-- Disk writes that leave the inode table, the index blocks and the marks of
the blocks in use alone. -/
theorem Sound.writeData
    (sound : Sound state)
    (sameCache : final.icache = state.icache) (table : SameTable state final)
    (index : ∀ root path, path.length < rootHeight root →
      state.place root path ≠ 0 →
      final.disk (diskIndex (state.place root path)) =
        state.disk (diskIndex (state.place root path)))
    (marks : ∀ root path, path.length ≤ rootHeight root →
      state.place root path ≠ 0 → final.Marked (state.place root path)) :
    Sound final := by
  refine ⟨?_, ?_, ?_, ?_⟩
  · exact sound.unique.congr fun ip => by rw [sameCache]
  · intro ip used
    rw [sameCache] at used ⊢
    exact sound.small ip used
  · intro ip used valid
    rw [sameCache] at used valid ⊢
    rw [table.dinodeAt (sound.small ip used)]
    exact sound.backed ip used valid
  · have sameRoot := table.root sameCache
    refine sound.forest.restrict (fun root path bound =>
      Or.inl (place_congr sameRoot index root bound))
      fun root path bound present _ => ?_
    have same := place_congr sameRoot index root bound
    unfold State.place State.blockAt at same
    rw [same] at present ⊢
    exact marks root path bound present

/-! ## Storing an inode -/

/-- Storing what a filled slot holds changes no current field. -/
theorem dinodeOf_storeDinode
    {ip : Slot} (unique : UniqueSlots state)
    (used : (state.icache ip).inodeNum ≠ inodeNumUnused)
    (valid : (state.icache ip).valid = true) :
    (state.storeDinode (state.icache ip).inodeNum
      (state.icache ip).data).dinodeOf = state.dinodeOf := by
  have sameSlot : ∀ inodeNum, slotOf (state.storeDinode
      (state.icache ip).inodeNum (state.icache ip).data) inodeNum =
      slotOf state inodeNum := slotOf_congr fun _ => rfl
  funext inodeNum
  by_cases same : inodeNum = (state.icache ip).inodeNum
  · subst same
    rw [dinodeOf_valid unique used valid]
    unfold State.dinodeOf
    rw [sameSlot, slotOf_of_unique unique used]
    exact if_pos valid
  · unfold State.dinodeOf
    rw [sameSlot]
    cases found : slotOf state inodeNum with
    | none => exact dinodeAt_storeDinode_of_ne same _
    | some other =>
        have differs : (state.icache other).inodeNum ≠
            (state.icache ip).inodeNum := by
          rwa [slotOf_eq_some found]
        simp only [State.locked, storeDinode_icache,
          dinodeAt_storeDinode_of_ne differs]

/-- The state after the fields of a slot were changed and stored. -/
def State.storeData (state : State) (ip : Slot) (data : Dinode) : State :=
  (state.setData ip data).storeDinode (state.icache ip).inodeNum data

section Store

variable {ip : Slot} {data : Dinode}
  (sound : Sound state)
  (used : (state.icache ip).inodeNum ≠ inodeNumUnused)
  (valid : (state.icache ip).valid = true)

include sound used valid

theorem Sound.dinodeOf_storeData :
    (state.storeData ip data).dinodeOf =
      Function.update state.dinodeOf (state.icache ip).inodeNum data := by
  have unique : UniqueSlots (state.setData ip data) :=
    sound.unique.congr (inodeNum_setData ip data)
  have slot : (state.setData ip data).icache ip =
      (state.icache ip).setData data := setData_icache_self ip data
  have number : ((state.setData ip data).icache ip).inodeNum =
      (state.icache ip).inodeNum := inodeNum_setData ip data ip
  have stored := dinodeOf_storeDinode unique
    (show ((state.setData ip data).icache ip).inodeNum ≠ _ by
      rwa [number]) (by rw [slot]; exact valid)
  rw [number, slot] at stored
  unfold State.storeData
  rw [← dinodeOf_setData sound.unique used valid]
  exact stored

omit valid in
theorem Sound.storeData_disk
    {index : Nat} (outside : index < 2 ∨ 130 ≤ index) :
    (state.storeData ip data).disk index = state.disk index :=
  storeDinode_disk_of_ne (sound.small ip used) outside

/-- Changing and storing the fields of a slot, dropping block numbers at
most. -/
theorem Sound.store
    (fewer : ∀ k, data.addrs k = (state.icache ip).data.addrs k ∨
      data.addrs k = 0) :
    Sound (state.storeData ip data) := by
  have small := sound.small ip used
  have numbers : ∀ other, ((state.storeData ip data).icache other).inodeNum =
      (state.icache other).inodeNum := inodeNum_setData ip data
  have fields : (state.storeData ip data).dinodeOf = _ :=
    sound.dinodeOf_storeData used valid
  have sameChild : ∀ block, state.Marked block →
      (state.storeData ip data).child block = state.child block :=
    fun block marked => State.child_congr (sound.storeData_disk used
      (Or.inr (by rw [marked.diskIndex_eq]; have := marked.1; omega)))
  have sameMarks : (state.storeData ip data).Marked = state.Marked :=
    State.marked_congr (sound.storeData_disk used (Or.inr (by decide)))
  refine ⟨sound.unique.congr numbers, ?_, ?_, ?_⟩
  · intro other otherUsed
    rw [numbers] at otherUsed ⊢
    exact sound.small other otherUsed
  · intro other otherUsed otherValid
    rw [numbers] at otherUsed ⊢
    by_cases same : other = ip
    · subst same
      have slot : (state.storeData other data).icache other =
          (state.icache other).setData data := setData_icache_self other data
      have stored : (state.storeData other data).dinodeAt
          (state.icache other).inodeNum = data :=
        dinodeAt_storeDinode_self _ _
      rw [stored, slot]
      exact Backs.refl _
    · have slot : (state.storeData ip data).icache other =
          state.icache other := setData_icache_of_ne same data
      have differs : (state.icache other).inodeNum ≠
          (state.icache ip).inodeNum := fun equal =>
        same (sound.unique other ip otherUsed equal)
      have stored : (state.storeData ip data).dinodeAt
          (state.icache other).inodeNum =
          state.dinodeAt (state.icache other).inodeNum :=
        dinodeAt_storeDinode_of_ne differs _
      rw [slot] at otherValid ⊢
      rw [stored]
      exact sound.backed other otherUsed otherValid
  · rw [sameMarks]
    have roots : ∀ root, (state.storeData ip data).root root =
        state.root root ∨ (state.storeData ip data).root root = 0 := by
      intro root
      unfold State.root
      rw [fields]
      by_cases same : root.1 = (state.icache ip).inodeNum
      · rw [same, if_pos small, if_pos small, Function.update_self,
          dinodeOf_valid sound.unique used valid]
        exact fewer root.2
      · rw [Function.update_of_ne same]
        exact Or.inl rfl
    refine sound.forest.restrict (fun root path bound => ?_)
      fun _ _ _ _ marked => marked
    rcases roots root with same | zero
    · left
      rw [same]
      apply Forest.value_congr
      intro before next after split present
      refine congrFun (sameChild _ (sound.forest.marked root before ?_
        present)) next
      rw [split, List.length_append] at bound
      omega
    · right
      rw [zero, Forest.value_null]

end Store

end Fs
end WhuOs
