import WhuOs.Fs.InodeTable
import WhuOs.Library.Forest

/-!
# Block trees

The block numbers of an inode are the roots of trees of blocks.  `locate_block`
walks down such a tree and adds the blocks that are missing, which it takes in
the order of the bitmap.  An index block that is added must read as zero.
-/

namespace WhuOs
namespace Fs

open Library
open Library.Bytes
open Library.Forest (value missing Tree TreeGrows)
open Program (Runs)

variable {state final : State}

/-! ## Taken and free blocks -/

/-- Index of a block number in an index block. -/
abbrev ChildIndex := Fin entryPerBlock

/-- A block number stored in an index block. -/
def State.child (state : State) (blockNum : UInt32) (index : ChildIndex) :
    UInt32 :=
  read32 (state.disk (diskIndex blockNum)) (4 * index)

theorem State.child_congr
    {blockNum : UInt32}
    (same : final.disk (diskIndex blockNum) =
      state.disk (diskIndex blockNum)) :
    final.child blockNum = state.child blockNum := by
  funext index
  unfold State.child
  rw [same]

/-- A data block whose bit is set. -/
def State.Marked (state : State) (blockNum : UInt32) : Prop :=
  131 ≤ blockNum.toNat ∧ blockNum.toNat < totalBlocks ∧
    bitAt state.dataBitmap (blockNum.toNat - 131) = true

/-- The free data blocks in the order in which they are handed out. -/
def State.freeBlocks (state : State) : List Nat :=
  ((List.range dataBlocks).filter fun number =>
    !bitAt state.dataBitmap number).map (131 + ·)

/-- A block without a nonzero byte. -/
def Zeroed (data : Block) : Prop :=
  ∀ index < blockSize, data index = 0

theorem Zeroed.read32_eq_zero
    {data : Block} (zeroed : Zeroed data) (index : ChildIndex) :
    read32 data (4 * index) = 0 := by
  have bound : index.val < 256 := index.isLt
  have size : blockSize = 1024 := rfl
  apply read32_of_byteOf
  intro offset small
  rw [zeroed _ (by omega)]
  symm
  apply UInt8.toNat_inj.mp
  rw [byteOf_toNat]
  simp

theorem Zeroed.child_eq_zero
    {blockNum : UInt32} (zeroed : Zeroed (state.disk (diskIndex blockNum)))
    (index : ChildIndex) :
    state.child blockNum index = 0 :=
  zeroed.read32_eq_zero index

namespace State

theorem Marked.diskIndex_eq
    {blockNum : UInt32} (marked : state.Marked blockNum) :
    diskIndex blockNum = blockNum.toNat := by
  have size : totalBlocks = 8323 := rfl
  exact diskIndex_of_lt (by have := marked.2.1; omega)

theorem Marked.ne_zero
    {blockNum : UInt32} (marked : state.Marked blockNum) : blockNum ≠ 0 := by
  rintro rfl
  exact absurd marked.1 (by decide)

/-- A taken block lies behind the bitmap. -/
theorem Marked.diskIndex_ne
    {blockNum : UInt32} (marked : state.Marked blockNum)
    {index : Nat} (small : index < 131) : diskIndex blockNum ≠ index := by
  rw [marked.diskIndex_eq]
  have := marked.1
  omega

/-- Taken blocks are stored in different places. -/
theorem Marked.diskIndex_inj
    {other : State} {blockNum blockNum' : UInt32}
    (marked : state.Marked blockNum) (marked' : other.Marked blockNum')
    (same : diskIndex blockNum = diskIndex blockNum') :
    blockNum = blockNum' := by
  rw [marked.diskIndex_eq, marked'.diskIndex_eq] at same
  exact UInt32.toNat_inj.mp same

theorem mem_freeBlocks {index : Nat} :
    index ∈ state.freeBlocks ↔ 131 ≤ index ∧ index < totalBlocks ∧
      bitAt state.dataBitmap (index - 131) = false := by
  have sizes : dataBlocks = 8192 ∧ totalBlocks = 8323 := ⟨rfl, rfl⟩
  simp only [freeBlocks, List.mem_map, List.mem_filter, List.mem_range,
    Bool.not_eq_true']
  constructor
  · rintro ⟨number, ⟨bound, clear⟩, rfl⟩
    rw [Nat.add_sub_cancel_left]
    exact ⟨by omega, by omega, clear⟩
  · rintro ⟨low, high, clear⟩
    exact ⟨index - 131, ⟨by omega, clear⟩, by omega⟩

/-- A free block has no mark. -/
theorem not_marked_of_mem_freeBlocks
    {blockNum : UInt32} (free : blockNum.toNat ∈ state.freeBlocks) :
    ¬state.Marked blockNum := by
  intro marked
  have clear := (mem_freeBlocks.mp free).2.2
  rw [marked.2.2] at clear
  cases clear

/-- A block that was not marked and is marked later was free. -/
theorem mem_freeBlocks_of_marked
    {blockNum : UInt32} (unmarked : ¬state.Marked blockNum)
    (marked : final.Marked blockNum) :
    blockNum.toNat ∈ state.freeBlocks := by
  refine mem_freeBlocks.mpr ⟨marked.1, marked.2.1, ?_⟩
  by_contra set
  exact unmarked ⟨marked.1, marked.2.1, by simpa using set⟩

/-- Free blocks and marks depend on the bitmap only. -/
theorem freeBlocks_congr (same : final.disk 130 = state.disk 130) :
    final.freeBlocks = state.freeBlocks := by
  unfold freeBlocks dataBitmap
  rw [same]

theorem marked_congr (same : final.disk 130 = state.disk 130) :
    final.Marked = state.Marked := by
  funext blockNum
  unfold Marked dataBitmap
  rw [same]

end State

/-- The free numbers of a bitmap from the first one on. -/
theorem filter_clear_of_first
    {data : Block} {size number : Nat}
    (bound : number < size) (clear : bitAt data number = false)
    (before : ∀ other < number, bitAt data other = true) :
    (List.range size).filter (fun other => !bitAt data other) =
      number :: (List.range size).filter fun other =>
        !bitAt (setBit data number) other := by
  obtain ⟨rest, rfl⟩ := Nat.exists_eq_add_of_lt bound
  have ranges : List.range (number + rest + 1) = List.range number ++
      number :: (List.range rest).map (number + 1 + ·) := by
    rw [show number + rest + 1 = number + (1 + rest) by omega,
      List.range_add, List.range_add, List.map_append, List.map_map]
    simp only [List.range_one, List.map_cons, List.map_nil, Nat.add_zero,
      List.singleton_append]
    congr 2
    apply List.map_congr_left
    intro other member
    simp only [Function.comp_apply]
    omega
  have first : (List.range number).filter (fun other => !bitAt data other) =
      [] := by
    rw [List.filter_eq_nil_iff]
    intro other member
    rw [before other (List.mem_range.mp member)]
    decide
  have first' : (List.range number).filter (fun other =>
      !bitAt (setBit data number) other) = [] := by
    rw [List.filter_eq_nil_iff]
    intro other member
    rw [bitAt_setBit, before other (List.mem_range.mp member)]
    simp
  have later : ((List.range rest).map (number + 1 + ·)).filter
      (fun other => !bitAt (setBit data number) other) =
      ((List.range rest).map (number + 1 + ·)).filter
        fun other => !bitAt data other := by
    apply List.filter_congr
    intro other member
    obtain ⟨offset, _, rfl⟩ := List.mem_map.mp member
    have differs : number + 1 + offset ≠ number := by omega
    rw [bitAt_setBit]
    simp [differs]
  rw [ranges, List.filter_append, List.filter_append, first, first',
    List.filter_cons, List.filter_cons, later, bitAt_setBit, clear]
  simp

/-- Allocating a block takes the first free one and marks it. -/
theorem bitmapAllocBlock_takes
    {result : UInt32}
    (run : bitmapAllocBlock.Runs state result final) :
    (state.freeBlocks = [] ∧ result = 0 ∧ final = state) ∨
    (state.freeBlocks = result.toNat :: final.freeBlocks ∧ result ≠ 0 ∧
      final.Marked result ∧
      (∀ other, final.Marked other ↔ state.Marked other ∨ other = result) ∧
      ∃ data, final = state.setDisk 130 data) := by
  have sizes : dataBlocks = 8192 ∧ totalBlocks = 8323 := ⟨rfl, rfl⟩
  rcases bitmapAllocBlock_runs run with
    ⟨full, rfl, rfl⟩ | ⟨number, found, notZero, toNat, rfl⟩
  · left
    refine ⟨?_, rfl, rfl⟩
    unfold State.freeBlocks
    rw [List.map_eq_nil_iff, List.filter_eq_nil_iff]
    intro number member
    rw [firstClear_eq_none full (List.mem_range.mp member)]
    decide
  · right
    obtain ⟨bound, clear, before⟩ := firstClear_eq_some found
    have bitmap : (state.setDisk 130 (setBit state.dataBitmap
        number)).dataBitmap = setBit state.dataBitmap number := by
      unfold State.dataBitmap
      rw [State.setDisk_disk, Function.update_self]
    have marked : (state.setDisk 130 (setBit state.dataBitmap
        number)).Marked result := by
      refine ⟨by omega, by omega, ?_⟩
      rw [bitmap, bitAt_setBit, toNat]
      simp
    refine ⟨?_, marked.ne_zero, marked, fun other => ?_, _, rfl⟩
    · unfold State.freeBlocks
      rw [bitmap, filter_clear_of_first bound clear before, List.map_cons, toNat]
    · unfold State.Marked
      rw [bitmap, bitAt_setBit, ← UInt32.toNat_inj, toNat]
      constructor
      · rintro ⟨low, high, set⟩
        simp only [Bool.or_eq_true, decide_eq_true_eq] at set
        rcases set with same | set
        · exact Or.inr (by omega)
        · exact Or.inl ⟨low, high, set⟩
      · rintro (⟨low, high, set⟩ | same)
        · exact ⟨low, high, by simp [set]⟩
        · rw [same]
          exact ⟨by omega, by omega, by simp⟩

/-! ## Walking down a tree -/

/-- The pointers followed from an entry to one of the blocks below it. -/
def pathBelow (bn : Nat) : (level : Nat) → List ChildIndex
  | 0 => []
  | level + 1 => Fin.ofNat entryPerBlock (bn / entryPerBlock ^ level) ::
      pathBelow (bn % entryPerBlock ^ level) level

theorem pathBelow_length (bn level : Nat) :
    (pathBelow bn level).length = level := by
  induction level generalizing bn with
  | zero => rfl
  | succ level inductionHypothesis =>
      rw [pathBelow, List.length_cons, inductionHypothesis]

/-- The block at the end of a path below an entry. -/
abbrev State.blockAt (state : State) (entry : UInt32)
    (path : List ChildIndex) : UInt32 :=
  value 0 state.child entry path

/-- Change the disk only. -/
@[simps] def State.withDisk (state : State) (disk : Nat → Block) : State :=
  { state with disk := disk }

/-- What a walk down a tree does: blocks that are missing along the path are
taken from the free ones, and only the bitmap and the index blocks on the path
are written. -/
structure Located (state final : State) (level : Nat) (entry entry' : UInt32)
    (target : List ChildIndex) : Prop where
  cache : final = state.withDisk final.disk
  grows : TreeGrows 0 level entry state.child state.Marked entry' final.child
    final.Marked
  free : final.freeBlocks =
    state.freeBlocks.drop (missing 0 state.child entry target)
  disk : ∀ index, index ≠ 130 →
    (∀ path, path <+: target → path.length < level →
      diskIndex (final.blockAt entry' path) ≠ index) →
    final.disk index = state.disk index
  onTarget : ∀ path, path.length ≤ level → state.blockAt entry path = 0 →
    final.blockAt entry' path ≠ 0 → path <+: target
  index : ∀ path, path <+: target → path.length < level →
    final.blockAt entry' path ≠ 0
  leaf : missing 0 state.child entry target ≤ state.freeBlocks.length →
    final.blockAt entry' target ≠ 0

namespace Located

variable {level : Nat} {entry entry' next : UInt32}
variable {target : List ChildIndex}

/-- Nothing is to be done at the end of a walk if there is a block or none can
be had. -/
theorem refl
    (missing : entry = 0 → state.freeBlocks = []) :
    Located state state 0 entry entry [] := by
  refine ⟨rfl, Forest.Grows.refl, ?_, fun _ _ _ => rfl,
    fun path _ absent present => absurd absent present,
    fun path _ short => absurd short (Nat.not_lt_zero _), fun enough => ?_⟩
  · unfold Forest.missing
    split
    · next absent => rw [missing absent]; rfl
    · rfl
  · intro absent
    have absent : entry = 0 := absent
    rw [missing absent, absent, Forest.missing_null] at enough
    exact absurd enough (by decide)

/-- A block is taken for a missing entry before the walk goes on. -/
theorem fresh
    {middle : State}
    (taken : state.freeBlocks = entry.toNat :: middle.freeBlocks)
    (marked : middle.Marked entry)
    (marks : ∀ other, middle.Marked other ↔
      state.Marked other ∨ other = entry)
    (bitmap : ∃ data, middle = state.setDisk 130 data)
    (zeroed : 0 < level → Zeroed (state.disk entry.toNat))
    (length : target.length = level)
    (located : Located middle final level entry entry target) :
    Located state final level 0 entry target := by
  obtain ⟨data, rfl⟩ := bitmap
  have sameDisk : ∀ index, index ≠ 130 →
      (state.setDisk 130 data).disk index = state.disk index :=
    fun index differs => Function.update_of_ne differs _ _
  have sameChild : ∀ block, (state.setDisk 130 data).Marked block →
      (state.setDisk 130 data).child block = state.child block := by
    intro block isMarked
    exact State.child_congr
      (sameDisk _ (isMarked.diskIndex_ne (by decide)))
  have unmarked : ¬state.Marked entry := by
    apply State.not_marked_of_mem_freeBlocks
    rw [taken]
    exact List.mem_cons_self
  have empty : 0 < level → ∀ index,
      (state.setDisk 130 data).child entry index = 0 := by
    intro positive index
    rw [sameChild entry marked]
    apply Zeroed.child_eq_zero
    rw [marked.diskIndex_eq]
    exact zeroed positive
  have fewer : missing 0 state.child 0 target =
      missing 0 (state.setDisk 130 data).child entry target + 1 := by
    rw [Forest.missing_null]
    cases target with
    | nil =>
        unfold missing
        rw [if_neg marked.ne_zero]
        rfl
    | cons index rest =>
        rw [Forest.missing_cons marked.ne_zero, empty (by
          rw [← length]
          exact Nat.succ_pos _), Forest.missing_null]
        rfl
  have grows := Forest.TreeGrows.fresh marked.ne_zero unmarked empty
    (fun other before => (marks other).mpr (Or.inl before)) marked
    located.grows
  refine ⟨located.cache, ⟨fun _ path bound => ?_, fun _ _ path path' bound
    bound' _ _ present equal => ?_, grows.marks⟩, ?_, ?_, ?_, located.index,
    ?_⟩
  · have kept := grows.kept () path bound
    rwa [Forest.value_null] at kept ⊢
  · exact grows.distinct () () path path' bound bound'
      (Forest.value_null _) (Forest.value_null _) present equal
  · rw [located.free, fewer, taken, List.drop_succ_cons]
  · intro index differs outside
    rw [located.disk index differs outside, sameDisk index differs]
  · intro path bound _ present
    cases path with
    | nil => exact List.nil_prefix
    | cons first rest =>
        refine located.onTarget _ bound ?_ present
        have positive : 0 < level :=
          Nat.lt_of_lt_of_le (Nat.succ_pos _) bound
        unfold State.blockAt
        rw [Forest.value_cons marked.ne_zero, empty positive,
          Forest.value_null]
  · intro enough
    apply located.leaf
    rw [fewer, taken, List.length_cons] at enough
    omega

/-- The walk goes on below an index block, which is written afterwards. -/
theorem descend
    {middle : State} {index : ChildIndex} {rest : List ChildIndex}
    (tree : Tree 0 (level + 1) entry state.child state.Marked)
    (present : entry ≠ 0) (length : rest.length = level)
    (located : Located state middle level (state.child entry index) next rest)
    (written : final = middle.setDisk (diskIndex entry)
      (write32 (state.disk (diskIndex entry)) (4 * index) next)) :
    Located state final (level + 1) entry entry (index :: rest) ∧
      final.blockAt entry (index :: rest) = middle.blockAt next rest := by
  have marked := Forest.Tree.marked_entry tree present
  have sameBitmap : final.disk 130 = middle.disk 130 := by
    rw [written, State.setDisk_disk,
      Function.update_of_ne (marked.diskIndex_ne (by decide)).symm]
  have sameMarks : final.Marked = middle.Marked :=
    State.marked_congr sameBitmap
  have stored : final.child entry =
      Function.update (state.child entry) index next := by
    funext other
    unfold State.child
    rw [written, State.setDisk_disk, Function.update_self]
    by_cases same : other = index
    · subst same
      rw [Function.update_self, read32_write32]
    · rw [Function.update_of_ne same]
      have numbers : other.val ≠ index.val := fun equal =>
        same (Fin.ext equal)
      exact read32_memmove_of_disjoint _ _ (by omega)
  have others : ∀ block, block ≠ entry → middle.Marked block →
      final.child block = middle.child block := by
    intro block differs isMarked
    apply State.child_congr
    rw [written, State.setDisk_disk, Function.update_of_ne]
    exact fun same => differs (isMarked.diskIndex_inj marked same)
  -- Blocks outside the subtree are not written below it.
  have frame : ∀ block, state.Marked block →
      (∀ path, path.length < level →
        state.blockAt (state.child entry index) path ≠ block) →
      middle.child block = state.child block := by
    intro block isMarked outside
    apply State.child_congr
    rw [located.disk _ (isMarked.diskIndex_ne (by decide))]
    intro path onPath short same
    rcases located.grows.kept () path (Nat.le_of_lt short) with
      kept | ⟨_, unmarked, later⟩
    · rw [State.blockAt, kept] at same
      have isPresent : state.blockAt (state.child entry index) path ≠ 0 := by
        intro absent
        rw [State.blockAt] at absent
        rw [absent, diskIndex_zero] at same
        exact isMarked.diskIndex_ne (by decide) same.symm
      have isMarked' := (tree.below present index).marked () path
        (Nat.le_of_lt short) isPresent
      exact outside path short (isMarked'.diskIndex_inj isMarked same)
    · have equal := later.diskIndex_inj isMarked same
      rw [equal] at unmarked
      exact unmarked isMarked
  have along : ∀ path : List ChildIndex, path.length ≤ level →
      final.blockAt entry (index :: path) = middle.blockAt next path :=
    fun path bound => Forest.TreeGrows.value_along tree present
      located.grows stored others bound
  have aside : ∀ other path, other ≠ index → path.length ≤ level →
      final.blockAt entry (other :: path) =
        state.blockAt entry (other :: path) :=
    fun other path differs bound => Forest.TreeGrows.value_aside tree present
      located.grows stored others frame differs bound
  refine ⟨⟨?_, ?_, ?_, ?_, ?_, ?_, ?_⟩, along rest length.le⟩
  · rw [written, located.cache]
    rfl
  · rw [sameMarks]
    exact Forest.TreeGrows.descend tree present located.grows stored others
      frame
  · rw [State.freeBlocks_congr sameBitmap, located.free,
      Forest.missing_cons present]
  · intro place differs outside
    have notEntry : diskIndex entry ≠ place :=
      outside [] List.nil_prefix (Nat.succ_pos _)
    rw [written, State.setDisk_disk, Function.update_of_ne notEntry.symm,
      located.disk place differs]
    intro path onPath short
    have below := outside (index :: path) ((List.prefix_cons_inj _).mpr onPath)
      (Nat.succ_lt_succ short)
    rwa [along path (Nat.le_of_lt short)] at below
  · intro path bound absent isPresent
    cases path with
    | nil => exact absurd absent present
    | cons other path =>
        have shorter : path.length ≤ level := Nat.le_of_succ_le_succ bound
        by_cases same : other = index
        · subst same
          rw [along path shorter] at isPresent
          rw [State.blockAt, Forest.value_cons present] at absent
          exact (List.prefix_cons_inj _).mpr
            (located.onTarget path shorter absent isPresent)
        · rw [aside other path same shorter] at isPresent
          exact absurd absent isPresent
  · intro path onPath short
    cases path with
    | nil => exact present
    | cons other path =>
        obtain ⟨rfl, onRest⟩ := List.cons_prefix_cons.mp onPath
        rw [along path (Nat.le_of_lt (Nat.lt_of_succ_lt_succ short))]
        exact located.index path onRest (Nat.lt_of_succ_lt_succ short)
  · intro enough
    rw [along rest length.le]
    apply located.leaf
    rwa [Forest.missing_cons present] at enough

end Located

/-- Buffers that are held do not matter for the trees. -/
theorem Located.setHeld
    {held held' : List UInt32} {level : Nat} {entry entry' : UInt32}
    {target : List ChildIndex}
    (located : Located (state.setHeld held) final level entry entry' target) :
    Located (state.setHeld held') (final.setHeld held') level entry entry'
      target := by
  refine ⟨?_, located.grows, located.free, located.disk, located.onTarget,
    located.index, located.leaf⟩
  rw [located.cache]
  rfl

theorem blockOfEntry_runs
    {entry result : UInt32}
    (run : (blockOfEntry entry).Runs state result final) :
    (entry ≠ 0 ∧ result = entry ∧ final = state) ∨
      (entry = 0 ∧ bitmapAllocBlock.Runs state result final) := by
  unfold blockOfEntry at run
  split at run
  · next absent => exact Or.inr ⟨absent, run⟩
  · next present =>
    rw [Program.runs_pure] at run
    exact Or.inl ⟨present, run.1.symm, run.2.symm⟩

/-- The free blocks that become index blocks when a number of blocks is missing
along a path: all but the last, and they must exist and read as zero. -/
def State.Supplies (state : State) (count : Nat) : Prop :=
  ∀ k, k + 1 < count → ∃ block, state.freeBlocks[k]? = some block ∧
    Zeroed (state.disk block)

/-- The number of a block in an index block. -/
theorem childIndex_of_lt
    {bn : UInt32} {level : Nat} (small : level < 4)
    (bound : bn.toNat < entryPerBlock ^ (level + 1)) :
    4 * (bn / UInt32.ofNat (entryPerBlock ^ level)).toNat =
      4 * (Fin.ofNat entryPerBlock (bn.toNat / entryPerBlock ^ level)).val ∧
    (bn % UInt32.ofNat (entryPerBlock ^ level)).toNat =
      bn.toNat % entryPerBlock ^ level := by
  have power : entryPerBlock ^ level < 2 ^ 32 :=
    calc entryPerBlock ^ level
      _ ≤ entryPerBlock ^ 3 := Nat.pow_le_pow_right (by decide) (by omega)
      _ < 2 ^ 32 := by decide
  have toNat : (UInt32.ofNat (entryPerBlock ^ level)).toNat =
      entryPerBlock ^ level := by
    rw [UInt32.toNat_ofNat']
    exact Nat.mod_eq_of_lt power
  have quotient : bn.toNat / entryPerBlock ^ level < entryPerBlock :=
    Nat.div_lt_of_lt_mul (by rwa [Nat.pow_succ] at bound)
  constructor
  · rw [UInt32.toNat_div, toNat]
    have same : (Fin.ofNat entryPerBlock
        (bn.toNat / entryPerBlock ^ level)).val =
        bn.toNat / entryPerBlock ^ level := Nat.mod_eq_of_lt quotient
    rw [same]
  · rw [UInt32.toNat_mod, toNat]

/-- The walk below the block of an entry. -/
def walkBelow (block bn : UInt32) (level : Nat) : FsM (UInt32 × UInt32) := do
  let nextSize := UInt32.ofNat (entryPerBlock ^ level)
  let data ← bufRead block
  let index := 4 * (bn / nextSize).toNat
  let (ret, nextEntry) ← locateBlock (read32 data index) (bn % nextSize) level
  bufWrite block (write32 data index nextEntry)
  bufRelease block
  return (ret, block)

theorem locateBlock_succ (entry bn : UInt32) (level : Nat) :
    locateBlock entry bn (level + 1) =
      blockOfEntry entry >>= fun block => walkBelow block bn level := rfl

/-- The specification of `locate_block` at a level. -/
def LocatesAt (level : Nat) : Prop :=
  ∀ ⦃state final : State⦄ ⦃entry bn ret entry' : UInt32⦄,
    (locateBlock entry bn level).Runs state (ret, entry') final →
    (0 < level → bn.toNat < entryPerBlock ^ level) →
    Tree 0 level entry state.child state.Marked →
    state.Supplies
      (missing 0 state.child entry (pathBelow bn.toNat level)) →
    Located state final level entry entry' (pathBelow bn.toNat level) ∧
      ret = final.blockAt entry' (pathBelow bn.toNat level)

/-- The walk below an index block, which is the same for one that was there and
for one that was just taken. -/
theorem walkBelow_located
    {level : Nat} {block bn ret entry' : UInt32}
    (locates : LocatesAt level) (small : level < 4)
    (bound : bn.toNat < entryPerBlock ^ (level + 1))
    (tree : Tree 0 (level + 1) block state.child state.Marked)
    (present : block ≠ 0)
    (supplied : state.Supplies
      (missing 0 state.child block (pathBelow bn.toNat (level + 1))))
    (run : (walkBelow block bn level).Runs state (ret, entry') final) :
    entry' = block ∧ Located state final (level + 1) block block
      (pathBelow bn.toNat (level + 1)) ∧
    ret = final.blockAt block (pathBelow bn.toNat (level + 1)) := by
  obtain ⟨offset, remainder⟩ := childIndex_of_lt small bound
  rw [pathBelow, ← remainder, Forest.missing_cons present] at supplied
  rw [pathBelow, ← remainder]
  generalize Fin.ofNat entryPerBlock (bn.toNat / entryPerBlock ^ level) =
    index at offset supplied ⊢
  simp only [walkBelow, offset, Program.runs_bind, Program.runs_pure,
    Prod.mk.injEq] at run
  obtain ⟨data, _, read, ⟨ret', next⟩, middle, below, _, _, write, _,
    finished, release, ⟨rfl, rfl⟩, rfl⟩ := run
  obtain ⟨_, _, rfl, rfl⟩ := bufRead_runs read
  obtain ⟨located, rfl⟩ := locates below
    (fun _ => by rw [remainder]; exact Nat.mod_lt _ (Nat.pow_pos (by decide)))
    (tree.below present index) supplied
  have unheld : Located state (middle.setHeld state.held) level
      (state.child block index) next _ := located.setHeld
  have written : finished = (middle.setHeld state.held).setDisk
      (diskIndex block) (write32 (state.disk (diskIndex block)) (4 * index)
        next) := by
    rw [bufRelease_runs release, bufWrite_runs write, located.cache]
    simp only [State.setDisk_held, State.withDisk_held, State.setHeld_held,
      List.erase_cons_head]
    rfl
  obtain ⟨whole, found⟩ := Located.descend tree present
    (pathBelow_length _ _) unheld written
  exact ⟨rfl, whole, found.symm⟩

/-- A block that was just taken is an index block without pointers, and the
blocks that go below it are the next ones. -/
theorem fresh_index
    {start : State} {level bn : Nat} {block : UInt32}
    (taken : state.freeBlocks = block.toNat :: start.freeBlocks)
    (marked : start.Marked block)
    (bitmap : ∃ data, start = state.setDisk 130 data)
    (supplied : state.Supplies (level + 1 + 1)) :
    Zeroed (state.disk block.toNat) ∧
    Zeroed (start.disk (diskIndex block)) ∧
    Tree 0 (level + 1) block start.child start.Marked ∧
    start.Supplies (missing 0 start.child block (pathBelow bn (level + 1))) := by
  obtain ⟨first, isFirst, zeroed⟩ := supplied 0 (by omega)
  rw [taken] at isFirst
  obtain rfl := Option.some.inj isFirst
  have unchanged : ∀ index, index ≠ 130 →
      start.disk index = state.disk index := by
    obtain ⟨data, rfl⟩ := bitmap
    exact fun index differs => Function.update_of_ne differs _ _
  have zeroed' : Zeroed (start.disk (diskIndex block)) := by
    rw [unchanged _ (marked.diskIndex_ne (by decide)), marked.diskIndex_eq]
    exact zeroed
  refine ⟨zeroed, zeroed', Forest.Tree.single marked zeroed'.child_eq_zero,
    fun k few => ?_⟩
  rw [pathBelow, Forest.missing_cons marked.ne_zero, zeroed'.child_eq_zero,
    Forest.missing_null, pathBelow_length] at few
  obtain ⟨other, isNext, otherZeroed⟩ := supplied (k + 1) (by omega)
  rw [taken, List.getElem?_cons_succ] at isNext
  refine ⟨other, isNext, ?_⟩
  rw [unchanged]
  · exact otherZeroed
  · have := (State.mem_freeBlocks.mp (List.mem_of_getElem? isNext)).1
    omega

/-- Walking down a tree finds the block at the end of the path, adding what is
missing. -/
theorem locateBlock_located {level : Nat} (small : level < 4) :
    LocatesAt level := by
  induction level with
  | zero =>
      intro state final entry bn ret entry' run _ _ _
      simp only [locateBlock, Program.runs_bind, Program.runs_pure,
        Prod.mk.injEq] at run
      obtain ⟨block, middle, take, ⟨rfl, rfl⟩, rfl⟩ := run
      refine ⟨?_, rfl⟩
      rcases blockOfEntry_runs take with ⟨present, rfl, rfl⟩ | ⟨rfl, alloc⟩
      · exact Located.refl fun absent => absurd absent present
      · rcases bitmapAllocBlock_takes alloc with
          ⟨none, rfl, rfl⟩ | ⟨taken, notZero, marked, marks, bitmap⟩
        · exact Located.refl fun _ => none
        · exact Located.fresh taken marked marks bitmap
            (fun positive => absurd positive (Nat.lt_irrefl 0)) rfl
            (Located.refl fun absent => absurd absent notZero)
  | succ level inductionHypothesis =>
      intro state final entry bn ret entry' run bound tree supplied
      have locates := inductionHypothesis (Nat.lt_of_succ_lt small)
      simp only [locateBlock_succ, Program.runs_bind] at run
      obtain ⟨block, start, take, run⟩ := run
      rcases blockOfEntry_runs take with ⟨present, rfl, rfl⟩ | ⟨rfl, alloc⟩
      · obtain ⟨rfl, located, found⟩ := walkBelow_located locates
          (Nat.lt_of_succ_lt small) (bound (Nat.succ_pos _)) tree present
          supplied run
        exact ⟨located, found⟩
      · rw [Forest.missing_null, pathBelow_length] at supplied
        rcases bitmapAllocBlock_takes alloc with
          ⟨none, rfl, rfl⟩ | ⟨taken, notZero, marked, marks, bitmap⟩
        · obtain ⟨first, isFirst, _⟩ := supplied 0 (by omega)
          rw [none] at isFirst
          cases isFirst
        · obtain ⟨zeroed, _, single, supplied'⟩ :=
            fresh_index taken marked bitmap supplied
          obtain ⟨rfl, located, found⟩ := walkBelow_located locates
            (Nat.lt_of_succ_lt small) (bound (Nat.succ_pos _)) single notZero
            supplied' run
          exact ⟨Located.fresh taken marked marks bitmap (fun _ => zeroed)
            (pathBelow_length _ _) located, found⟩

/-! ## Many trees -/

section Forest

variable {ρ : Type*} {height : ρ → Nat} {root : ρ → UInt32} {r : ρ}
  {entry' : UInt32} {target : List ChildIndex}
  (forest : Forest.Sound 0 height root state.child state.Marked)
  (located : Located state final (height r) (root r) entry' target)

include forest located

/-- Index blocks on the way are data blocks afterwards. -/
theorem Located.marked_way
    {path : List ChildIndex} (onPath : path <+: target)
    (short : path.length < height r) :
    final.Marked (final.blockAt entry' path) :=
  ((forest.tree r).grow located.grows).marked () path (Nat.le_of_lt short)
    (located.index path onPath short)

/-- The other trees are not touched. -/
theorem Located.value_aside
    {r' : ρ} (differs : r' ≠ r) {path : List ChildIndex}
    (bound : path.length ≤ height r') :
    value 0 final.child (root r') path = value 0 state.child (root r') path := by
  apply Forest.value_congr
  intro before next after split present
  have shorter : before.length ≤ height r' := by
    rw [split, List.length_append] at bound
    omega
  have isMarked := forest.marked r' before shorter present
  refine congrFun (State.child_congr ?_) next
  refine located.disk _ (isMarked.diskIndex_ne (by decide))
    fun way onPath short same => ?_
  have equal := (located.marked_way forest onPath short).diskIndex_inj
    isMarked same
  rcases located.grows.kept () way (Nat.le_of_lt short) with
    unchanged | ⟨_, unmarked, _⟩
  · rw [State.blockAt, unchanged] at equal
    exact differs (forest.unique r' r before way shorter (Nat.le_of_lt short)
      present equal.symm).1
  · rw [State.blockAt] at equal
    rw [equal] at unmarked
    exact unmarked isMarked

end Forest

end Fs
end WhuOs
