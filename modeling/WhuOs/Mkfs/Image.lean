import Mathlib.Algebra.BigOperators.Intervals
import WhuOs.Fs.Extend
import WhuOs.Mkfs.Defs

/-!
# What copying a file writes

Blocks are taken in the order of their numbers, and a block that was not taken
yet is zero.  A file keeps its direct blocks.  Of an index block nothing is
written, so the data below it is written to blocks that the inode does not
lead to.
-/

namespace WhuOs
namespace Mkfs

open Library
open Library.Bytes
open Fs (Dinode bitAt setBit nAddrs entryPerBlock addrLevel placeOf Zeroed
  maxBlocks)
open Program (Runs)

variable {image final : Image}

/-! ## Blocks -/

theorem blockIndex_of_lt
    {blockNum : UInt32} (small : blockNum.toNat < Fs.totalBlocks) :
    blockIndex blockNum = blockNum.toNat := by
  have size : Fs.totalBlocks = 8323 := rfl
  have thousand : (1024 : UInt32).toNat = 1024 := rfl
  have block : blockSize = 1024 := rfl
  unfold blockIndex
  rw [UInt32.toNat_mul, thousand, block, Nat.mod_eq_of_lt (by omega)]
  omega

@[simp] theorem runs_blockRead {blockNum : UInt32} {data : Block} :
    (blockRead blockNum).Runs image data final ↔
      image (blockIndex blockNum) = data ∧ image = final := by
  simp only [blockRead, Program.runs_bind, Program.runs_get,
    Program.runs_pure]
  constructor
  · rintro ⟨_, _, ⟨rfl, rfl⟩, rfl, rfl⟩
    exact ⟨rfl, rfl⟩
  · rintro ⟨rfl, rfl⟩
    exact ⟨_, _, ⟨rfl, rfl⟩, rfl, rfl⟩

@[simp] theorem runs_blockWrite
    {blockNum : UInt32} {data : Block} {result : Unit} :
    (blockWrite blockNum data).Runs image result final ↔
      Function.update image (blockIndex blockNum) data = final := by
  simp [blockWrite]

/-- The bits below a count are set and no others. -/
def OnesBelow (data : Block) (count : Nat) : Prop :=
  ∀ number < Fs.dataBlocks, bitAt data number = decide (number < count)

theorem OnesBelow.searchBit
    {data : Block} {count : Nat} (ones : OnesBelow data count)
    (room : count < Fs.dataBlocks) : searchBit data = some count := by
  have sizes : blockSize * 8 = 8192 ∧ Fs.dataBlocks = 8192 := ⟨rfl, rfl⟩
  unfold Mkfs.searchBit
  rw [List.find?_range_eq_some]
  refine ⟨?_, List.mem_range.mpr (by omega), fun other before => ?_⟩
  · rw [ones count room]
    simp
  · rw [ones other (by omega)]
    simp [before]

theorem OnesBelow.setBit
    {data : Block} {count : Nat} (ones : OnesBelow data count) :
    OnesBelow (setBit data count) (count + 1) := by
  intro number small
  rw [Fs.bitAt_setBit, ones number small, ← Bool.decide_or, decide_eq_decide]
  omega

/-- Allocating takes the bit behind the ones. -/
theorem bitAlloc_runs
    {bitmapBlock : UInt32} {message : String} {count : Nat}
    (ones : OnesBelow (image (blockIndex bitmapBlock)) count)
    (room : count < Fs.dataBlocks) :
    (bitAlloc bitmapBlock message).Runs image count
      (Function.update image (blockIndex bitmapBlock)
        (setBit (image (blockIndex bitmapBlock)) count)) := by
  have read : (blockRead bitmapBlock).Runs image
      (image (blockIndex bitmapBlock)) image :=
    runs_blockRead.mpr ⟨rfl, rfl⟩
  unfold bitAlloc
  rw [read.bind_iff, ones.searchBit room]
  exact Program.runs_bind.mpr ⟨(), _, runs_blockWrite.mpr rfl,
    Program.runs_pure.mpr ⟨rfl, rfl⟩⟩

/-- An image with a number of blocks and inodes taken.  The other blocks are
zero. -/
structure Laid (image : Image) (used inodes : Nat) : Prop where
  blocks : OnesBelow (image 130) used
  inodes : OnesBelow (image 1) inodes
  positive : 0 < used
  clean : ∀ index, 131 + used ≤ index → Zeroed (image index)

/-- Only the bitmap of blocks and blocks behind the first ones are written. -/
def Behind (image final : Image) (used : Nat) : Prop :=
  ∀ index, index ≠ 130 → index < 131 + used → final index = image index

theorem Behind.refl (image : Image) (used : Nat) : Behind image image used :=
  fun _ _ _ => rfl

theorem Behind.trans
    {middle : Image} {used used' : Nat} (first : Behind image middle used)
    (second : Behind middle final used') (more : used ≤ used') :
    Behind image final used :=
  fun index differs low =>
    (second index differs (by omega)).trans (first index differs low)

namespace Laid

variable {used inodes : Nat}

/-- Allocating a block takes the next one. -/
theorem blockAlloc
    (laid : Laid image used inodes) (room : used < Fs.dataBlocks) :
    ∃ blockNum final, blockAlloc.Runs image blockNum final ∧
      blockNum.toNat = 131 + used ∧ Laid final (used + 1) inodes ∧
      ∀ index, index ≠ 130 → final index = image index := by
  have size : Fs.dataBlocks = 8192 := rfl
  have index : blockIndex Fs.dataBitmapStart = 130 := rfl
  have ones : OnesBelow (image (blockIndex Fs.dataBitmapStart)) used := by
    rw [index]
    exact laid.blocks
  have alloc : (bitAlloc Fs.dataBitmapStart "block_alloc: no bit left").Runs
      image used (Function.update image 130 (Fs.setBit (image 130) used)) := by
    rw [← index]
    exact bitAlloc_runs ones room
  have kept : ∀ index, index ≠ 130 → Function.update image 130
      (Fs.setBit (image 130) used) index = image index :=
    fun index differs => Function.update_of_ne differs _ _
  refine ⟨_, _, alloc.bind_iff.mpr (Program.runs_pure.mpr ⟨rfl, rfl⟩), ?_,
    ⟨?_, ?_, Nat.succ_pos _, fun index low => ?_⟩, kept⟩
  · have start : Fs.dataStart.toNat = 131 := rfl
    rw [UInt32.toNat_add, UInt32.toNat_ofNat', start]
    omega
  · rw [Function.update_self]
    exact laid.blocks.setBit
  · rw [kept 1 (by decide)]
    exact laid.inodes
  · rw [kept index (by omega)]
    exact laid.clean index (by omega)

/-- Writing a block that is taken. -/
theorem write
    (laid : Laid image used inodes) {index : Nat} (data : Block)
    (isData : 131 ≤ index) (taken : index < 131 + used) :
    Laid (Function.update image index data) used inodes := by
  refine ⟨?_, ?_, laid.positive, fun other low => ?_⟩
  · rw [Function.update_of_ne (by omega)]
    exact laid.blocks
  · rw [Function.update_of_ne (by omega)]
    exact laid.inodes
  · rw [Function.update_of_ne (by omega)]
    exact laid.clean other low

end Laid

/-! ## Locating a block -/

/-- The number of blocks that are taken for an entry itself. -/
def fresh (entry : UInt32) : Nat := if entry = 0 then 1 else 0

theorem blockOfEntry_taken
    {used inodes : Nat} {entry : UInt32} (laid : Laid image used inodes)
    (room : used + fresh entry ≤ Fs.dataBlocks) :
    ∃ block final, (blockOfEntry entry).Runs image block final ∧
      Laid final (used + fresh entry) inodes ∧
      (∀ index, index ≠ 130 → final index = image index) ∧
      (entry ≠ 0 → block = entry) ∧
      (entry = 0 → block.toNat = 131 + used) := by
  unfold blockOfEntry
  unfold fresh at room ⊢
  split
  · next absent =>
    rw [if_pos absent] at room
    obtain ⟨block, final, run, number, laid', kept⟩ := laid.blockAlloc room
    exact ⟨block, final, run, laid', kept,
      fun present => absurd absent present, fun _ => number⟩
  · next present =>
    exact ⟨entry, image, Program.runs_pure.mpr ⟨rfl, rfl⟩, laid,
      fun _ _ => rfl, fun _ => rfl, fun absent => absurd absent present⟩

/-- What locating a block below an entry returns: the new value of the entry,
and the block of the entry or, below an index block, the one taken last. -/
structure Found (entry : UInt32) (level used : Nat) (ret entry' : UInt32) :
    Prop where
  same : entry ≠ 0 → entry' = entry
  next : entry = 0 → entry'.toNat = 131 + used
  single : level = 0 → ret = entry'
  deeper : 0 < level → ret.toNat = 131 + (used + fresh entry + level - 1)

/-- Locating a block below an entry takes a block for every level, since index
blocks are found empty. -/
theorem locateBlock_taken
    {level used inodes : Nat} {entry bn : UInt32} (small : level < 4)
    (laid : Laid image used inodes)
    (bound : 0 < level → bn.toNat < entryPerBlock ^ level)
    (empty : entry ≠ 0 → 0 < level → Zeroed (image (blockIndex entry)))
    (room : used + fresh entry + level ≤ Fs.dataBlocks) :
    ∃ ret entry' final,
      (locateBlock entry bn level).Runs image (ret, entry') final ∧
      Laid final (used + fresh entry + level) inodes ∧
      (∀ index, index ≠ 130 → final index = image index) ∧
      Found entry level used ret entry' := by
  have sizes : Fs.dataBlocks = 8192 ∧ Fs.totalBlocks = 8323 := ⟨rfl, rfl⟩
  induction level generalizing image used entry bn with
  | zero =>
      obtain ⟨block, final, run, laid', kept, same, number⟩ :=
        blockOfEntry_taken laid room
      exact ⟨block, block, final, run.bind_iff.mpr
        (Program.runs_pure.mpr ⟨rfl, rfl⟩), laid', kept, same, number,
        fun _ => rfl, fun positive => absurd positive (Nat.lt_irrefl 0)⟩
  | succ level inductionHypothesis =>
      obtain ⟨block, middle, take, laid', kept, same, number⟩ :=
        blockOfEntry_taken laid (show used + fresh entry ≤ _ by omega)
      obtain ⟨offset, remainder⟩ := Fs.childIndex_of_lt
        (Nat.lt_of_succ_lt small) (bound (Nat.succ_pos _))
      -- An index block is zero, whether it was there or not.
      have zeroed : Zeroed (middle (blockIndex block)) := by
        by_cases absent : entry = 0
        · have isNext := number absent
          have one : fresh entry = 1 := if_pos absent
          rw [blockIndex_of_lt (by omega), kept _ (by omega)]
          exact laid.clean _ (by omega)
        · rw [same absent, kept]
          · exact empty absent (Nat.succ_pos _)
          · intro bitmap
            have zero := empty absent (Nat.succ_pos _)
            rw [bitmap] at zero
            have set := laid.blocks 0 (by omega)
            rw [decide_eq_true laid.positive] at set
            have clear : bitAt (image 130) 0 = false := by
              unfold bitAt
              rw [zero 0 (by decide)]
              decide
            rw [clear] at set
            cases set
      have one : fresh 0 = 1 := rfl
      obtain ⟨ret, next, final, walk, laid'', kept', found⟩ :=
        inductionHypothesis (Nat.lt_of_succ_lt small) laid'
          (fun _ => by
            rw [remainder]
            exact Nat.mod_lt _ (Nat.pow_pos (by decide)))
          (fun absurdity => absurd rfl absurdity)
          (by rw [one]; omega)
      refine ⟨ret, block, final, ?_, ?_, fun index differs =>
        (kept' index differs).trans (kept index differs), same, number,
        fun absurdity => absurd absurdity (Nat.succ_ne_zero _), fun _ => ?_⟩
      · have read : (blockRead block).Runs middle (middle (blockIndex block))
            middle := runs_blockRead.mpr ⟨rfl, rfl⟩
        have below := zeroed.read32_eq_zero
          (Fin.ofNat entryPerBlock (bn.toNat / entryPerBlock ^ level))
        rw [← offset] at below
        unfold locateBlock
        simp only [take.bind_iff, read.bind_iff]
        rw [below]
        exact walk.bind_iff.mpr (Program.runs_pure.mpr ⟨rfl, rfl⟩)
      · rw [one, Nat.add_right_comm, Nat.add_assoc _ level 1] at laid''
        exact laid''
      · by_cases last : level = 0
        · rw [found.single last, found.next rfl]
          omega
        · rw [found.deeper (by omega), one]
          omega

/-! ## Copying a file -/

/-- The block numbers of an inode that lead to a range of its blocks. -/
def slots (start count : Nat) : Finset (Fin nAddrs) :=
  (Finset.Ico start (start + count)).image fun bn => (placeOf bn).1

/-- The number of blocks taken to write a range of blocks of a file: one for
each of these block numbers, and for each block one for each level below. -/
def taken (start count : Nat) : Nat :=
  (slots start count).card +
    ∑ bn ∈ Finset.Ico start (start + count), addrLevel (placeOf bn).1

theorem slots_succ (start count : Nat) :
    slots start (count + 1) =
      insert (placeOf (start + count)).1 (slots start count) := by
  unfold slots
  rw [← Nat.add_assoc, ← Finset.insert_Ico_right_eq_Ico_add_one
    (Nat.le_add_right start count), Finset.image_insert]

theorem taken_succ (start count : Nat) :
    taken start (count + 1) = taken start count +
      (if (placeOf (start + count)).1 ∈ slots start count then 0 else 1) +
      addrLevel (placeOf (start + count)).1 := by
  unfold taken
  rw [slots_succ, ← Nat.add_assoc, Finset.sum_Ico_succ_top
    (Nat.le_add_right start count)]
  split
  · next seen =>
    rw [Finset.insert_eq_of_mem seen]
    omega
  · next new =>
    rw [Finset.card_insert_of_notMem new]
    omega

/-- What an inode leads to after a range of blocks of a file was written.  The
blocks it has were taken in an interval, the direct ones hold the data and the
index blocks are empty. -/
structure Stored (image : Image) (inode : Dinode) (start count : Nat)
    (data : List UInt8) (low high : Nat) : Prop where
  present : ∀ k, inode.addrs k ≠ 0 ↔ k ∈ slots start count
  range : ∀ k, inode.addrs k ≠ 0 → 131 + low ≤ (inode.addrs k).toNat ∧
    (inode.addrs k).toNat < 131 + high
  distinct : ∀ k k', inode.addrs k ≠ 0 → inode.addrs k = inode.addrs k' →
    k = k'
  index : ∀ k, inode.addrs k ≠ 0 → 0 < addrLevel k →
    Zeroed (image (inode.addrs k).toNat)
  direct : ∀ bn, start ≤ bn → bn < start + count → bn < 10 →
    ∀ offset < blockSize, blockSize * (bn - start) + offset < data.length →
      image (inode.addrs (placeOf bn).1).toNat offset =
        data.getD (blockSize * (bn - start) + offset) 0

/-- A new inode leads nowhere. -/
theorem Stored.new
    (image : Image) (type : UInt16) (start : Nat) (data : List UInt8)
    (low high : Nat) :
    Stored image (newInode type) start 0 data low high := by
  refine ⟨fun k => ?_, fun k present => absurd rfl present,
    fun k k' present => absurd rfl present,
    fun k present => absurd rfl present, fun bn low high => ?_⟩
  · simp [newInode, slots]
  · omega

/-- Blocks outside the interval do not matter. -/
theorem Stored.congr
    {inode : Dinode} {start count low high : Nat} {data : List UInt8}
    (stored : Stored image inode start count data low high)
    (same : ∀ index, 131 + low ≤ index → index < 131 + high →
      final index = image index) :
    Stored final inode start count data low high := by
  refine ⟨stored.present, stored.range, stored.distinct,
    fun k present inner => ?_, fun bn atLeast below isDirect => ?_⟩
  · obtain ⟨atLow, beforeHigh⟩ := stored.range k present
    rw [same _ atLow beforeHigh]
    exact stored.index k present inner
  · have present : inode.addrs (placeOf bn).1 ≠ 0 := by
      rw [stored.present]
      exact Finset.mem_image_of_mem _ (Finset.mem_Ico.mpr ⟨atLeast, below⟩)
    obtain ⟨atLow, beforeHigh⟩ := stored.range _ present
    rw [same _ atLow beforeHigh]
    exact stored.direct bn atLeast below isDirect

/-- A direct block has a block number of its own. -/
theorem placeOf_ne_of_direct
    {bn other : Nat} (isDirect : bn < 10) (differs : bn ≠ other) :
    (placeOf bn).1 ≠ (placeOf other).1 := by
  intro same
  have place : placeOf bn = (Fin.ofNat nAddrs bn, []) := if_pos isDirect
  have value : ((placeOf bn).1).val = bn := by
    rw [place]
    exact Nat.mod_eq_of_lt (by show bn < 13; omega)
  rw [same] at value
  unfold placeOf at value
  split at value
  · next otherDirect =>
    have : (Fin.ofNat nAddrs other).val = other :=
      Nat.mod_eq_of_lt (by show other < 13; omega)
    simp only [this] at value
    exact differs value.symm
  · split at value
    · next single =>
      have : (Fin.ofNat nAddrs (10 + (other - 10) / 256)).val =
          10 + (other - 10) / 256 :=
        Nat.mod_eq_of_lt (by show 10 + (other - 10) / 256 < 13; omega)
      simp only [this] at value
      omega
    · have : ((12 : Fin nAddrs)).val = 12 := rfl
      simp only [this] at value
      omega

/-- What was written of a file: what the inode leads to, how many blocks are
taken, and that blocks taken before are as they were. -/
structure Copying (before image : Image) (inode : Dinode)
    (start count : Nat) (data : List UInt8) (low inodes : Nat) : Prop where
  stored : Stored image inode start count data low (low + taken start count)
  laid : Laid image (low + taken start count) inodes
  behind : Behind before image low

namespace Copying

variable {before : Image} {inode : Dinode} {start count low inodes : Nat}
variable {data : List UInt8}

/-- Whether a block has to be taken for a block number. -/
theorem fresh_eq
    (copying : Copying before image inode start count data low inodes)
    (k : Fin nAddrs) :
    fresh (inode.addrs k) = if k ∈ slots start count then 0 else 1 := by
  have present := copying.stored.present k
  unfold fresh
  by_cases seen : k ∈ slots start count
  · rw [if_pos seen, if_neg (present.mpr seen)]
  · rw [if_neg seen, if_pos (by_contra fun there => seen (present.mp there))]

section Step

variable {ret entry : UInt32} {k : Fin nAddrs}
variable (copying : Copying before image inode start count data low inodes)
  (found : Found (inode.addrs k) (addrLevel k) (low + taken start count) ret
    entry)

include copying found

/-- The block number is in the interval of the blocks taken. -/
theorem entry_range :
    131 + low ≤ entry.toNat ∧ entry.toNat <
      131 + (low + taken start count + fresh (inode.addrs k)) := by
  by_cases absent : inode.addrs k = 0
  · have one : fresh (inode.addrs k) = 1 := if_pos absent
    have number := found.next absent
    omega
  · rw [found.same absent]
    have range := copying.stored.range k absent
    omega

theorem entry_ne_zero : entry ≠ 0 := by
  rintro rfl
  have range := (copying.entry_range found).1
  rw [UInt32.toNat_zero] at range
  omega

/-- The block numbers of the inode stay different. -/
theorem entry_distinct
    {other : Fin nAddrs} (differs : other ≠ k) :
    inode.addrs other ≠ entry := by
  intro equal
  by_cases absent : inode.addrs k = 0
  · have number := found.next absent
    have present : inode.addrs other ≠ 0 := by
      intro zero
      rw [← equal, zero, UInt32.toNat_zero] at number
      omega
    have range := (copying.stored.range other present).2
    rw [equal] at range
    omega
  · rw [found.same absent] at equal
    exact differs (copying.stored.distinct k other absent equal.symm).symm

theorem ret_range :
    131 + low ≤ ret.toNat ∧ ret.toNat < 131 + (low + taken start count +
      fresh (inode.addrs k) + addrLevel k) := by
  by_cases level : addrLevel k = 0
  · rw [found.single level]
    have range := copying.entry_range found
    omega
  · have number := found.deeper (by omega)
    omega

/-- The data goes to a block the inode leads to only if this is a direct
one. -/
theorem ret_apart
    {other : Fin nAddrs}
    (present : (inode.setAddr k entry).addrs other ≠ 0)
    (equal : ret.toNat = ((inode.setAddr k entry).addrs other).toNat) :
    addrLevel k = 0 ∧ other = k := by
  by_cases isSame : other = k
  · subst isSame
    refine ⟨?_, rfl⟩
    have new : (inode.setAddr other entry).addrs other = entry :=
      Function.update_self _ _ _
    rw [new] at equal
    by_contra inner
    have number := found.deeper (by omega)
    by_cases absent : inode.addrs other = 0
    · have one : fresh (inode.addrs other) = 1 := if_pos absent
      have := found.next absent
      omega
    · have range := (copying.stored.range other absent).2
      rw [← found.same absent] at range
      omega
  · have old : (inode.setAddr k entry).addrs other = inode.addrs other :=
      Function.update_of_ne isSame _ _
    rw [old] at present equal
    have range := (copying.stored.range other present).2
    by_cases level : addrLevel k = 0
    · rw [found.single level] at equal
      exact absurd (UInt32.toNat_inj.mp equal).symm
        (copying.entry_distinct found isSame)
    · have number := found.deeper (by omega)
      omega

/-- Writing the next block of a file. -/
theorem step
    {middle : Image} {buf : Block} (place : k = (placeOf (start + count)).1)
    (laid : Laid middle (low + taken start count + fresh (inode.addrs k) +
      addrLevel k) inodes)
    (kept : ∀ index, index ≠ 130 → middle index = image index)
    (filled : ∀ offset < blockSize,
      blockSize * count + offset < data.length →
        buf offset = data.getD (blockSize * count + offset) 0) :
    Copying before (Function.update middle ret.toNat buf)
      (inode.setAddr k entry) start (count + 1) data low inodes := by
  have total : low + taken start (count + 1) = low + taken start count +
      fresh (inode.addrs k) + addrLevel k := by
    rw [taken_succ, copying.fresh_eq, place]
    omega
  have new : (inode.setAddr k entry).addrs k = entry :=
    Function.update_self _ _ _
  have old : ∀ other, other ≠ k → (inode.setAddr k entry).addrs other =
      inode.addrs other := fun other differs =>
    Function.update_of_ne differs _ _
  have written := copying.ret_range found
  refine ⟨⟨fun other => ?_, fun other present => ?_,
    fun other other' present equal => ?_, fun other present inner => ?_,
    fun bn atLeast below isDirect offset inside more => ?_⟩, ?_, ?_⟩
  · rw [slots_succ, ← place, Finset.mem_insert]
    by_cases isSame : other = k
    · subst isSame
      rw [new]
      exact iff_of_true (copying.entry_ne_zero found) (Or.inl rfl)
    · rw [old other isSame, copying.stored.present]
      simp only [isSame, false_or]
  · rw [total]
    by_cases isSame : other = k
    · subst isSame
      rw [new]
      have range := copying.entry_range found
      omega
    · rw [old other isSame] at present ⊢
      have range := copying.stored.range other present
      omega
  · by_cases isSame : other = k
    · subst isSame
      by_contra differs
      rw [new, old other' (Ne.symm differs)] at equal
      exact copying.entry_distinct found (Ne.symm differs) equal.symm
    · by_cases isSame' : other' = k
      · subst isSame'
        rw [new, old other isSame] at equal
        exact absurd equal (copying.entry_distinct found isSame)
      · rw [old other isSame] at present equal
        rw [old other' isSame'] at equal
        exact copying.stored.distinct other other' present equal
  · have apart : ((inode.setAddr k entry).addrs other).toNat ≠ ret.toNat := by
      intro equal
      obtain ⟨level, rfl⟩ := copying.ret_apart found present equal.symm
      omega
    rw [Function.update_of_ne apart]
    by_cases isSame : other = k
    · subst isSame
      have range := copying.entry_range found
      rw [new, kept _ (by omega)]
      by_cases absent : inode.addrs other = 0
      · have number := found.next absent
        exact copying.laid.clean _ (by omega)
      · rw [found.same absent]
        exact copying.stored.index other absent inner
    · rw [old other isSame] at present ⊢
      have range := copying.stored.range other present
      rw [kept _ (by omega)]
      exact copying.stored.index other present inner
  · by_cases isLast : bn = start + count
    · have level : addrLevel k = 0 := by
        rw [place, ← isLast, show placeOf bn = (Fin.ofNat nAddrs bn, []) from
          if_pos isDirect]
        exact Fs.addrLevel_direct isDirect
      have offsets : bn - start = count := by omega
      rw [offsets] at more ⊢
      rw [isLast, ← place, new, ← found.single level, Function.update_self]
      exact filled offset inside more
    · have isOld : bn < start + count := by omega
      have differs : (placeOf bn).1 ≠ k := by
        rw [place]
        exact placeOf_ne_of_direct isDirect isLast
      have present : inode.addrs (placeOf bn).1 ≠ 0 := by
        rw [copying.stored.present]
        exact Finset.mem_image_of_mem _ (Finset.mem_Ico.mpr ⟨atLeast, isOld⟩)
      have apart : (inode.addrs (placeOf bn).1).toNat ≠ ret.toNat := by
        rw [← old _ differs] at present ⊢
        exact fun equal =>
          differs (copying.ret_apart found present equal.symm).2
      have range := copying.stored.range _ present
      rw [old _ differs, Function.update_of_ne apart, kept _ (by omega)]
      exact copying.stored.direct bn atLeast isOld isDirect offset inside more
  · rw [total]
    exact laid.write buf (by omega) (by omega)
  · intro index differs small
    rw [Function.update_of_ne (by omega), kept index differs]
    exact copying.behind index differs small

end Step

/-- The size of the inode does not matter. -/
theorem setSize
    (copying : Copying before image inode start count data low inodes)
    (size : UInt32) :
    Copying before image (inode.setSize size) start count data low inodes :=
  ⟨⟨copying.stored.present, copying.stored.range, copying.stored.distinct,
    copying.stored.index, copying.stored.direct⟩, copying.laid,
    copying.behind⟩

/-- Locating the next block of a file. -/
theorem locate
    {bn : UInt32}
    (copying : Copying before image inode start count data low inodes)
    (number : bn.toNat = start + count) (small : start + count < maxBlocks)
    (room : low + taken start (count + 1) ≤ Fs.dataBlocks) :
    ∃ ret entry middle,
      (inodeLocateBlock inode bn).Runs image
        (ret, inode.setAddr (placeOf (start + count)).1 entry) middle ∧
      Found (inode.addrs (placeOf (start + count)).1)
        (addrLevel (placeOf (start + count)).1) (low + taken start count) ret
        entry ∧
      Laid middle (low + taken start count +
        fresh (inode.addrs (placeOf (start + count)).1) +
        addrLevel (placeOf (start + count)).1) inodes ∧
      ∀ index, index ≠ 130 → middle index = image index := by
  have sizes : Fs.dataBlocks = 8192 ∧ Fs.totalBlocks = 8323 := ⟨rfl, rfl⟩
  have isLocateIn : inodeLocateBlock inode bn =
      Fs.locateIn (locateAddr inode)
        (Program.panic "inode_locate_block: overflow") bn := rfl
  obtain ⟨below, same, bound, _⟩ := Fs.locateIn_eq (locateAddr inode)
    (Program.panic "inode_locate_block: overflow")
    (show bn.toNat < maxBlocks by omega)
  rw [isLocateIn, same, number]
  rw [number] at bound
  have total := taken_succ start count
  rw [← copying.fresh_eq] at total
  generalize (placeOf (start + count)).1 = k at bound total ⊢
  have empty : inode.addrs k ≠ 0 → 0 < addrLevel k →
      Zeroed (image (blockIndex (inode.addrs k))) := by
    intro present inner
    have range := copying.stored.range k present
    rw [blockIndex_of_lt (by omega)]
    exact copying.stored.index k present inner
  obtain ⟨ret, entry, middle, walk, laid, kept, found⟩ := locateBlock_taken
    (Fs.addrLevel_lt k) copying.laid bound empty (by omega)
  exact ⟨ret, entry, middle, walk.bind_iff.mpr
    (Program.runs_pure.mpr ⟨rfl, rfl⟩), found, laid, kept⟩

end Copying

theorem taken_le_succ (start count : Nat) :
    taken start count + 1 ≤ taken start (count + 1) := by
  rw [taken_succ]
  by_cases isDirect : start + count < 10
  · have new : (placeOf (start + count)).1 ∉ slots start count := by
      intro seen
      obtain ⟨bn, inside, same⟩ := Finset.mem_image.mp seen
      have bounds := Finset.mem_Ico.mp inside
      exact placeOf_ne_of_direct isDirect (show start + count ≠ bn by omega)
        same.symm
    rw [if_neg new]
    omega
  · have inner : 0 < addrLevel (placeOf (start + count)).1 := by
      rw [← Fs.placeOf_length]
      unfold placeOf
      rw [if_neg isDirect]
      split
      · exact Nat.succ_pos _
      · exact Nat.succ_pos _
    omega

theorem le_taken (start count : Nat) : count ≤ taken start count := by
  induction count with
  | zero => exact Nat.zero_le _
  | succ count inductionHypothesis =>
      have := taken_le_succ start count
      omega

theorem taken_mono {start count count' : Nat} (le : count ≤ count') :
    taken start count ≤ taken start count' :=
  monotone_nat_of_le_succ (fun count => by
    have := taken_le_succ start count
    omega) le

/-- The bytes of a read at the start of the buffer. -/
theorem getD_piece
    (buf : Block) (data : List UInt8) {position offset : Nat}
    (inside : offset < blockSize) (more : position + offset < data.length) :
    memmove buf 0 (fun index =>
        ((data.drop position).take blockSize).getD index 0)
      ((data.drop position).take blockSize).length offset =
      data.getD (position + offset) 0 := by
  have read : 0 ≤ offset ∧
      offset < 0 + ((data.drop position).take blockSize).length := by
    rw [List.length_take, List.length_drop]
    omega
  rw [memmove_of_mem _ _ read, Nat.sub_zero, List.getD_eq_getElem?_getD,
    List.getD_eq_getElem?_getD, List.getElem?_take_of_lt inside,
    List.getElem?_drop]

/-- Copying the rest of a file. -/
theorem copyLoop_stores
    {before : Image} {inode : Dinode} {start count low inodes : Nat}
    {data : List UInt8} {bn : UInt32} {buf : Block} {fuel : Nat}
    (copying : Copying before image inode start count data low inodes)
    (number : bn.toNat = start + count)
    (size : inode.size.toNat = blockSize * count)
    (reads : count + fuel = data.length / blockSize + 1)
    (more : blockSize * count ≤ data.length)
    (small : start + data.length / blockSize < maxBlocks)
    (room : low + taken start (data.length / blockSize + 1) ≤
      Fs.dataBlocks) :
    ∃ inode' bn' buf' final,
      (copyLoop inode bn buf (data.drop (blockSize * count)) fuel).Runs image
        (inode', bn', buf') final ∧
      Copying before final inode' start (data.length / blockSize + 1) data low
        inodes ∧
      bn'.toNat = start + (data.length / blockSize + 1) ∧
      inode'.size.toNat = data.length ∧ inode'.type = inode.type := by
  have sizes : maxBlocks = 66058 ∧ Fs.dataBlocks = 8192 ∧
    Fs.totalBlocks = 8323 := ⟨rfl, rfl, rfl⟩
  unfold blockSize at *
  induction fuel generalizing image inode count bn buf with
  | zero => omega
  | succ fuel inductionHypothesis =>
      have next : taken start (count + 1) ≤
          taken start (data.length / 1024 + 1) := taken_mono (by omega)
      obtain ⟨ret, entry, middle, locate, found, laid, kept⟩ :=
        copying.locate number (by omega) (by omega)
      have range := copying.ret_range found
      have total := taken_succ start count
      rw [← copying.fresh_eq] at total
      have place : blockIndex ret = ret.toNat :=
        blockIndex_of_lt (by omega)
      have length : ((data.drop (1024 * count)).take 1024).length =
          min 1024 (data.length - 1024 * count) := by
        rw [List.length_take, List.length_drop]
      have advanced : (bn + 1).toNat = start + (count + 1) := by
        rw [UInt32.toNat_add, number]
        show (start + count + 1) % 2 ^ 32 = _
        omega
      have copied := copying.step found rfl laid kept
        fun offset inside more => getD_piece buf data inside more
      have write : (blockWrite ret (memmove buf 0 (fun index =>
          ((data.drop (1024 * count)).take 1024).getD index 0)
          ((data.drop (1024 * count)).take 1024).length)).Runs middle () _ :=
        runs_blockWrite.mpr rfl
      rw [place] at write
      have grown : (inode.size + UInt32.ofNat
          ((data.drop (1024 * count)).take 1024).length).toNat =
          1024 * count + min 1024 (data.length - 1024 * count) := by
        rw [UInt32.toNat_add, UInt32.toNat_ofNat', size, length]
        omega
      simp only [copyLoop, blockSize, locate.bind_iff, write.bind_iff]
      split
      · next last =>
        rw [length] at last
        have isLast : count + 1 = data.length / 1024 + 1 := by omega
        refine ⟨_, _, _, _, Program.runs_pure.mpr ⟨rfl, rfl⟩, ?_, ?_, ?_, rfl⟩
        · rw [← isLast]
          exact copied.setSize _
        · rw [advanced, isLast]
        · show (inode.size + UInt32.ofNat _).toNat = data.length
          rw [grown]
          omega
      · next full =>
        rw [length] at full
        rw [List.drop_drop, ← Nat.mul_succ]
        exact inductionHypothesis (copied.setSize _) advanced
          (by
            show (inode.size + UInt32.ofNat _).toNat = 1024 * (count + 1)
            rw [grown]
            omega)
          (by omega) (by omega)

end Mkfs
end WhuOs
