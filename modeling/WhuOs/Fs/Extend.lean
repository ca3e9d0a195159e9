import WhuOs.Fs.Sound

/-!
# Blocks of an inode

Finding a block of an inode adds the blocks that are missing on the way to it.
The new blocks were free, every other place of the forest stays the same, and
apart from the bitmap only index blocks on the way are written.
-/

namespace WhuOs
namespace Fs

open Library
open Library.Forest (missing)
open Program (Runs)

variable {state final : State}

/-- What finding a block below a block number of a locked inode does. -/
structure Extended (state final : State) (ip : Slot) (k : Fin nAddrs)
    (target : List ChildIndex) : Prop where
  sound : Sound final
  cache : final = (state.withDisk final.disk).setData ip
    ((state.icache ip).data.setAddr k
      (final.root ((state.icache ip).inodeNum, k)))
  kept : ∀ root path, path.length ≤ rootHeight root →
    final.place root path = state.place root path ∨
    (root = ((state.icache ip).inodeNum, k) ∧ path <+: target ∧
      state.place root path = 0 ∧ ¬state.Marked (final.place root path) ∧
      final.Marked (final.place root path))
  marks : ∀ block, state.Marked block → final.Marked block
  free : final.freeBlocks = state.freeBlocks.drop (missing 0 state.child
    (state.root ((state.icache ip).inodeNum, k)) target)
  disk : ∀ index, index ≠ 130 →
    (∀ path, path <+: target → path.length < addrLevel k →
      diskIndex (final.place ((state.icache ip).inodeNum, k) path) ≠ index) →
    final.disk index = state.disk index
  index : ∀ path, path <+: target → path.length < addrLevel k →
    final.place ((state.icache ip).inodeNum, k) path ≠ 0
  leaf : missing 0 state.child
      (state.root ((state.icache ip).inodeNum, k)) target ≤
      state.freeBlocks.length →
    final.place ((state.icache ip).inodeNum, k) target ≠ 0

theorem addrLevel_lt (k : Fin nAddrs) : addrLevel k < 4 := by
  unfold addrLevel
  split_ifs <;> decide

/-- The current block number in a filled slot. -/
theorem Sound.root_eq
    (sound : Sound state) {ip : Slot}
    (used : (state.icache ip).inodeNum ≠ inodeNumUnused)
    (valid : (state.icache ip).valid = true) (k : Fin nAddrs) :
    state.root ((state.icache ip).inodeNum, k) =
      (state.icache ip).data.addrs k := by
  unfold State.root
  rw [if_pos (sound.small ip used), dinodeOf_valid sound.unique used valid]

theorem setAddr_addrs (dinode : Dinode) (k : Fin nAddrs) (addr : UInt32) :
    (dinode.setAddr k addr).addrs = Function.update dinode.addrs k addr := rfl

/-- Storing a block number in a filled slot changes one root. -/
theorem Sound.root_setAddr
    (sound : Sound state) {ip : Slot}
    (used : (state.icache ip).inodeNum ≠ inodeNumUnused)
    (valid : (state.icache ip).valid = true) (k : Fin nAddrs)
    (addr : UInt32) :
    (state.setData ip ((state.icache ip).data.setAddr k addr)).root =
      Function.update state.root ((state.icache ip).inodeNum, k) addr := by
  have small := sound.small ip used
  funext root
  obtain ⟨inodeNum, k'⟩ := root
  unfold State.root
  rw [dinodeOf_setData sound.unique used valid]
  by_cases same : inodeNum = (state.icache ip).inodeNum
  · subst same
    simp only [if_pos small, Function.update_self, setAddr_addrs]
    by_cases sameIndex : k' = k
    · subst sameIndex
      rw [Function.update_self, Function.update_self]
    · have differs : ((state.icache ip).inodeNum, k') ≠
          ((state.icache ip).inodeNum, k) := fun equal =>
        sameIndex (congrArg Prod.snd equal)
      rw [Function.update_of_ne sameIndex, Function.update_of_ne differs]
      exact (sound.root_eq used valid k').symm
  · have differs : (inodeNum, k') ≠ ((state.icache ip).inodeNum, k) :=
      fun equal => same (congrArg Prod.fst equal)
    rw [Function.update_of_ne differs]
    simp only [Function.update_of_ne same]

section Located

variable {middle : State} {ip : Slot} {k : Fin nAddrs} {entry' : UInt32}
  {target : List ChildIndex}
  (sound : Sound state)
  (used : (state.icache ip).inodeNum ≠ inodeNumUnused)
  (valid : (state.icache ip).valid = true)
  (located : Located state middle (addrLevel k)
    (state.root ((state.icache ip).inodeNum, k)) entry' target)

include sound located

/-- Index blocks on the way are data blocks afterwards. -/
theorem Located.marked_index
    {path : List ChildIndex} (onPath : path <+: target)
    (short : path.length < addrLevel k) :
    middle.Marked (middle.blockAt entry' path) :=
  Located.marked_way (r := ((state.icache ip).inodeNum, k)) sound.forest located
    onPath short

theorem Located.sameTable : SameTable state middle := by
  intro index _ high
  apply located.disk index (by omega)
  intro path onPath short
  exact (located.marked_index sound onPath short).diskIndex_ne (by omega)

/-- The other trees are not touched. -/
theorem Located.value_other
    {root : Root} (differs : root ≠ ((state.icache ip).inodeNum, k))
    {path : List ChildIndex} (bound : path.length ≤ rootHeight root) :
    Forest.value 0 middle.child (state.root root) path =
      state.place root path :=
  Located.value_aside (r := ((state.icache ip).inodeNum, k)) sound.forest
    located differs bound

include used valid

/-- A block number that is found was there or is not stored on disk. -/
theorem Located.backs :
    Backs (state.dinodeAt (state.icache ip).inodeNum)
      ((state.icache ip).data.setAddr k entry') := by
  have entry := sound.root_eq used valid k
  have backs := sound.backed ip used valid
  refine ⟨backs.type, backs.major, backs.minor, backs.nlink, fun k' => ?_⟩
  rw [setAddr_addrs]
  by_cases sameIndex : k' = k
  · subst sameIndex
    rw [Function.update_self]
    rcases located.grows.kept () [] (Nat.zero_le _) with
      unchanged | ⟨absent, _, _⟩
    · rw [Forest.value_nil, Forest.value_nil] at unchanged
      rw [unchanged, entry]
      exact backs.addrs k'
    · rw [Forest.value_nil, entry] at absent
      rcases backs.addrs k' with sameAddr | zero
      · exact Or.inr (sameAddr.trans absent)
      · exact Or.inr zero
  · rw [Function.update_of_ne sameIndex]
    exact backs.addrs k'

/-- Walking down the tree of a filled slot and storing the block number. -/
theorem Located.extended
    (stored : final = middle.setData ip
      ((middle.icache ip).data.setAddr k entry')) :
    Extended state final ip k target ∧
      final.root ((state.icache ip).inodeNum, k) = entry' := by
  have sameCache : middle.icache = state.icache := by
    rw [located.cache]
    rfl
  have table := located.sameTable sound
  have grows := Forest.Grows.atRoot located.grows fun root differs path
    bound => located.value_other sound differs bound
  rw [sameCache] at stored
  have sameDisk : final.disk = middle.disk := by
    rw [stored]
    rfl
  have roots : final.root = Function.update state.root
      ((state.icache ip).inodeNum, k) entry' := by
    rw [← sound.root_setAddr used valid]
    have sameTable : SameTable (state.setData ip
        ((state.icache ip).data.setAddr k entry')) final := by
      intro index low high
      rw [sameDisk]
      exact table index low high
    apply sameTable.root
    rw [stored]
    simp only [State.setData, State.setInode_icache, sameCache]
  have sameChild : final.child = middle.child := by
    rw [stored]
    rfl
  have sameMarks : final.Marked = middle.Marked := by
    rw [stored]
    rfl
  have places : ∀ path, final.place ((state.icache ip).inodeNum, k) path =
      middle.blockAt entry' path := by
    intro path
    unfold State.place State.blockAt
    rw [sameChild, roots, Function.update_self]
  have atRoot : final.root ((state.icache ip).inodeNum, k) = entry' := by
    rw [roots, Function.update_self]
  have numbers : ∀ other, (final.icache other).inodeNum =
      (state.icache other).inodeNum := by
    intro other
    rw [stored, inodeNum_setData, sameCache]
  refine ⟨⟨⟨?_, ?_, ?_, ?_⟩, ?_, ?_, ?_, ?_, ?_, ?_, ?_⟩, atRoot⟩
  · exact sound.unique.congr numbers
  · intro other otherUsed
    rw [numbers] at otherUsed ⊢
    exact sound.small other otherUsed
  · intro other otherUsed otherValid
    rw [numbers] at otherUsed ⊢
    have sameStored : final.dinodeAt (state.icache other).inodeNum =
        state.dinodeAt (state.icache other).inodeNum := by
      rw [stored]
      exact table.dinodeAt (sound.small other otherUsed)
    rw [sameStored]
    by_cases same : other = ip
    · subst same
      rw [stored, setData_icache_self, Inode.setData_data]
      exact located.backs sound used valid
    · rw [stored, setData_icache_of_ne same, sameCache] at otherValid ⊢
      exact sound.backed other otherUsed otherValid
  · rw [roots, sameChild, sameMarks]
    exact sound.forest.grow grows
  · rw [atRoot, sameDisk, stored, located.cache]
    rfl
  · intro root path bound
    unfold State.place State.blockAt
    rw [sameChild, sameMarks, roots]
    rcases grows.kept root path bound with same | ⟨absent, unmarked, later⟩
    · exact Or.inl same
    · by_cases sameRoot : root = ((state.icache ip).inodeNum, k)
      · subst sameRoot
        rw [Function.update_self] at unmarked later ⊢
        exact Or.inr ⟨rfl, located.onTarget path bound absent
          later.ne_zero, absent, unmarked, later⟩
      · rw [Function.update_of_ne sameRoot]
        exact Or.inl (located.value_other sound sameRoot bound)
  · rw [sameMarks]
    exact located.grows.marks
  · rw [← located.free]
    exact State.freeBlocks_congr (by rw [sameDisk])
  · intro index differs outside
    rw [sameDisk]
    refine located.disk index differs fun path onPath short => ?_
    rw [← places]
    exact outside path onPath short
  · intro path onPath short
    rw [places]
    exact located.index path onPath short
  · intro enough
    rw [places]
    exact located.leaf enough

end Located

/-! ## Numbered blocks -/

/-- Blocks an inode can have. -/
abbrev maxBlocks : Nat := 66058

/-- The place of a numbered block of an inode: a block number and the pointers
followed from there. -/
def placeOf (bn : Nat) : Fin nAddrs × List ChildIndex :=
  if bn < 10 then (Fin.ofNat nAddrs bn, [])
  else if bn < 522 then
    (Fin.ofNat nAddrs (10 + (bn - 10) / 256), pathBelow ((bn - 10) % 256) 1)
  else (12, pathBelow (bn - 522) 2)

theorem addrLevel_direct {bn : Nat} (direct : bn < 10) :
    addrLevel (Fin.ofNat nAddrs bn) = 0 := by
  have index : (Fin.ofNat nAddrs bn).val = bn :=
    Nat.mod_eq_of_lt (by show bn < 13; omega)
  unfold addrLevel
  rw [index, if_pos direct]

theorem addrLevel_single {bn : Nat} (single : bn < 522) :
    addrLevel (Fin.ofNat nAddrs (10 + (bn - 10) / 256)) = 1 := by
  have index : (Fin.ofNat nAddrs (10 + (bn - 10) / 256)).val =
      10 + (bn - 10) / 256 :=
    Nat.mod_eq_of_lt (by show 10 + (bn - 10) / 256 < 13; omega)
  unfold addrLevel
  rw [index, if_neg (by show ¬10 + (bn - 10) / 256 < 10; omega),
    if_pos (by show 10 + (bn - 10) / 256 < 12; omega)]

/-- A path to a numbered block goes down to the data. -/
theorem placeOf_length (bn : Nat) :
    (placeOf bn).2.length = addrLevel (placeOf bn).1 := by
  unfold placeOf
  split
  · next direct => exact (addrLevel_direct direct).symm
  · split
    · next single =>
      rw [pathBelow_length]
      exact (addrLevel_single single).symm
    · rw [pathBelow_length]
      rfl

/-- A numbered block of an inode. -/
def State.leaf (state : State) (inodeNum : UInt16) (bn : Nat) : UInt32 :=
  state.place (inodeNum, (placeOf bn).1) (placeOf bn).2

/-- The number of blocks missing on the way to a numbered block. -/
def State.missingTo (state : State) (inodeNum : UInt16) (bn : Nat) : Nat :=
  missing 0 state.child (state.root (inodeNum, (placeOf bn).1))
    (placeOf bn).2

/-- Finding a block below a block number of an inode. -/
theorem locateAddr_extended
    {ip : Slot} {k : Fin nAddrs} {bn : Nat} {below ret : UInt32}
    (sound : Sound state)
    (used : (state.icache ip).inodeNum ≠ inodeNumUnused)
    (valid : (state.icache ip).valid = true)
    (bound : 0 < addrLevel k → below.toNat < entryPerBlock ^ addrLevel k)
    (place : placeOf bn = (k, pathBelow below.toNat (addrLevel k)))
    (supplied : state.Supplies
      (state.missingTo (state.icache ip).inodeNum bn))
    (run : (locateAddr ip k below (addrLevel k)).Runs state ret final) :
    Extended state final ip (placeOf bn).1 (placeOf bn).2 ∧
      ret = final.leaf (state.icache ip).inodeNum bn := by
  unfold State.missingTo at supplied
  unfold State.leaf
  rw [place] at supplied ⊢
  simp only [locateAddr, Program.runs_bind, runs_getInode, runs_modifyData,
    Program.runs_pure] at run
  obtain ⟨_, _, ⟨rfl, rfl⟩, ⟨ret', entry'⟩, middle, walk, _, finished, stored,
    rfl, rfl⟩ := run
  have entry := sound.root_eq used valid k
  rw [← entry] at walk
  obtain ⟨located, found⟩ := locateBlock_located (addrLevel_lt k) walk bound
    (sound.forest.tree ((state.icache ip).inodeNum, k)) supplied
  obtain ⟨extended, root⟩ := located.extended sound used valid stored.symm
  refine ⟨extended, ?_⟩
  have sameChild : finished.child = middle.child := by
    rw [← stored]
    rfl
  have found : ret' = middle.blockAt entry'
      (pathBelow below.toNat (addrLevel k)) := found
  simp only [found, State.place, State.blockAt, sameChild, root]

/-- An inode has no blocks behind the double-indirect ones. -/
theorem inodeLocateBlock_bound
    {ip : Slot} {bn ret : UInt32}
    (run : (inodeLocateBlock ip bn).Runs state ret final) :
    bn.toNat < maxBlocks := by
  have size : maxBlocks = 66058 := rfl
  have numbers : (10 : UInt32).toNat = 10 ∧ (512 : UInt32).toNat = 512 ∧
    (65536 : UInt32).toNat = 65536 := ⟨rfl, rfl, rfl⟩
  simp only [inodeLocateBlock] at run
  split at run
  · next direct =>
    have := UInt32.lt_iff_toNat_lt.mp direct
    omega
  · next notDirect =>
    have rest := UInt32.toNat_sub_of_le _ _ (UInt32.not_lt.mp notDirect)
    split at run
    · next single =>
      have := UInt32.lt_iff_toNat_lt.mp single
      omega
    · next notSingle =>
      have rest' := UInt32.toNat_sub_of_le _ _ (UInt32.not_lt.mp notSingle)
      split at run
      · next double =>
        have := UInt32.lt_iff_toNat_lt.mp double
        omega
      · exact absurd run Program.runs_panic

/-- The search for a numbered block in the three areas of block numbers. -/
def locateIn {α : Type*} (locate : Fin nAddrs → UInt32 → Nat → α)
    (overflow : α) (bn : UInt32) : α :=
  if bn < 10 then
    locate (Fin.ofNat nAddrs bn.toNat) bn 0
  else if bn - 10 < 512 then
    locate (Fin.ofNat nAddrs (nAddrs1 + (bn - 10).toNat / entryPerBlock))
      ((bn - 10) % 256) 1
  else if bn - 10 - 512 < 65536 then
    locate (Fin.ofNat nAddrs (nAddrs1 + nAddrs2)) (bn - 10 - 512) 2
  else
    overflow

/-- A numbered block is looked for below one of the block numbers. -/
theorem locateIn_eq
    {α : Type*} (locate : Fin nAddrs → UInt32 → Nat → α) (overflow : α)
    {bn : UInt32} (bound : bn.toNat < maxBlocks) :
    ∃ below : UInt32,
      locateIn locate overflow bn = locate (placeOf bn.toNat).1 below
        (addrLevel (placeOf bn.toNat).1) ∧
      (0 < addrLevel (placeOf bn.toNat).1 →
        below.toNat < entryPerBlock ^ addrLevel (placeOf bn.toNat).1) ∧
      placeOf bn.toNat = ((placeOf bn.toNat).1,
        pathBelow below.toNat (addrLevel (placeOf bn.toNat).1)) := by
  have size : maxBlocks = 66058 := rfl
  have ten : (10 : UInt32).toNat = 10 := rfl
  have singles : (512 : UInt32).toNat = 512 := rfl
  have doubles : (65536 : UInt32).toNat = 65536 := rfl
  unfold locateIn
  by_cases direct : bn.toNat < 10
  · have isDirect : bn < 10 := UInt32.lt_iff_toNat_lt.mpr direct
    have place : placeOf bn.toNat = (Fin.ofNat nAddrs bn.toNat, []) :=
      if_pos direct
    have level := addrLevel_direct direct
    refine ⟨bn, ?_, ?_, ?_⟩
    · rw [place, if_pos isDirect, level]
    · rw [place, level]
      exact fun positive => absurd positive (Nat.lt_irrefl 0)
    · rw [place, level]
      rfl
  · have notDirect : (10 : UInt32) ≤ bn := by
      apply UInt32.le_iff_toNat_le.mpr
      omega
    have rest : (bn - 10).toNat = bn.toNat - 10 := by
      rw [UInt32.toNat_sub_of_le _ _ notDirect, ten]
    rw [if_neg (UInt32.not_lt.mpr notDirect)]
    by_cases single : bn.toNat < 522
    · have isSingle : bn - 10 < 512 := by
        apply UInt32.lt_iff_toNat_lt.mpr
        omega
      have place : placeOf bn.toNat = (Fin.ofNat nAddrs
          (10 + (bn.toNat - 10) / 256), pathBelow ((bn.toNat - 10) % 256)
            1) := by
        unfold placeOf
        rw [if_neg direct, if_pos single]
      have level := addrLevel_single single
      have remainder : ((bn - 10) % 256).toNat = (bn.toNat - 10) % 256 := by
        rw [UInt32.toNat_mod, rest]
        rfl
      refine ⟨(bn - 10) % 256, ?_, ?_, ?_⟩
      · rw [place, if_pos isSingle, level, rest]
      · rw [place, level, remainder]
        exact fun _ => Nat.mod_lt _ (by decide)
      · rw [place, level, remainder]
    · have notSingle : (512 : UInt32) ≤ bn - 10 := by
        apply UInt32.le_iff_toNat_le.mpr
        omega
      have rest' : (bn - 10 - 512).toNat = bn.toNat - 522 := by
        rw [UInt32.toNat_sub_of_le _ _ notSingle, rest, singles]
        omega
      have isDouble : bn - 10 - 512 < 65536 := by
        apply UInt32.lt_iff_toNat_lt.mpr
        omega
      have place : placeOf bn.toNat =
          (12, pathBelow (bn.toNat - 522) 2) := by
        unfold placeOf
        rw [if_neg direct, if_neg single]
      have level : addrLevel 12 = 2 := rfl
      refine ⟨bn - 10 - 512, ?_, ?_, ?_⟩
      · rw [place, if_neg (UInt32.not_lt.mpr notSingle), if_pos isDouble,
          level]
        rfl
      · rw [place, level, rest']
        intro _
        show bn.toNat - 522 < 65536
        omega
      · rw [place, level, rest']

theorem inodeLocateBlock_eq (ip : Slot) (bn : UInt32) :
    inodeLocateBlock ip bn = locateIn (locateAddr ip)
      (Program.panic "inode_locate_block: bn too large") bn := rfl

/-- Finding a numbered block of an inode. -/
theorem inodeLocateBlock_extended
    {ip : Slot} {bn ret : UInt32}
    (sound : Sound state)
    (used : (state.icache ip).inodeNum ≠ inodeNumUnused)
    (valid : (state.icache ip).valid = true)
    (supplied : state.Supplies
      (state.missingTo (state.icache ip).inodeNum bn.toNat))
    (run : (inodeLocateBlock ip bn).Runs state ret final) :
    Extended state final ip (placeOf bn.toNat).1 (placeOf bn.toNat).2 ∧
      ret = final.leaf (state.icache ip).inodeNum bn.toNat := by
  have small := inodeLocateBlock_bound run
  rw [inodeLocateBlock_eq] at run
  obtain ⟨below, same, bound, place⟩ := locateIn_eq (locateAddr ip) _ small
  rw [same] at run
  exact locateAddr_extended sound used valid bound place supplied run

end Fs
end WhuOs
