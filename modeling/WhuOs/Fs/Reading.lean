import WhuOs.Fs.Returns
import WhuOs.Fs.Transfer
import WhuOs.Library.Counting

/-!
# Reading data with holes

`inode_read_data` takes a block for every block of the data that is missing.
When every free block reads as zero and enough of them are left, the read
returns, and what was missing reads as zero.
-/

namespace WhuOs
namespace Fs

open Library
open Library.Bytes
open Library.Forest (missing Tree)
open Program (Runs)

variable {state final : State}

/-! ## Locating returns -/

/-- No locked buffer is one of the index blocks below an entry. -/
def State.Unlocked (state : State) (level : Nat) (entry : UInt32) : Prop :=
  ∀ block ∈ state.held, state.Marked block ∧
    ∀ path, path.length < level → state.blockAt entry path ≠ block

theorem State.Unlocked.bitmap
    {level : Nat} {entry : UInt32} (unlocked : state.Unlocked level entry) :
    dataBitmapStart ∉ state.held := by
  intro locked
  exact absurd (unlocked _ locked).1.1 (by decide)

/-- The buffer of an index block is locked while its entries are followed. -/
theorem State.Unlocked.below
    {level : Nat} {block : UInt32} (unlocked : state.Unlocked (level + 1) block)
    (tree : Tree 0 (level + 1) block state.child state.Marked)
    (present : block ≠ 0) (index : ChildIndex) :
    (state.setHeld (block :: state.held)).Unlocked level
      (state.child block index) := by
  intro other isLocked
  rcases List.mem_cons.mp isLocked with rfl | held
  · exact ⟨Forest.Tree.marked_entry tree present, fun path short =>
      tree.below_ne present index path (Nat.le_of_lt short)⟩
  · refine ⟨(unlocked other held).1, fun path short => ?_⟩
    have apart := (unlocked other held).2 (index :: path)
      (Nat.succ_lt_succ short)
    rwa [State.blockAt, Forest.value_cons present] at apart

theorem blockOfEntry_total
    {level : Nat} {entry : UInt32}
    (unlocked : state.Unlocked level entry)
    (room : state.held.length < Buf.nBlockBuf)
    (first : bitAt state.dataBitmap 0 = true) :
    ∃ block final, (blockOfEntry entry).Runs state block final := by
  unfold blockOfEntry
  split
  · exact bitmapAllocBlock_total unlocked.bitmap room first
  · exact ⟨_, _, Program.runs_pure.mpr ⟨rfl, rfl⟩⟩

/-- `locate_block` returns at a level. -/
def ReturnsAt (level : Nat) : Prop :=
  ∀ ⦃state : State⦄ ⦃entry bn : UInt32⦄,
    (0 < level → bn.toNat < entryPerBlock ^ level) →
    Tree 0 level entry state.child state.Marked →
    state.Supplies
      (missing 0 state.child entry (pathBelow bn.toNat level)) →
    state.Unlocked level entry →
    state.held.length + level < Buf.nBlockBuf →
    bitAt state.dataBitmap 0 = true →
    ∃ result final, (locateBlock entry bn level).Runs state result final

theorem walkBelow_total
    {level : Nat} {block bn : UInt32}
    (returns : ReturnsAt level) (small : level < 4)
    (bound : bn.toNat < entryPerBlock ^ (level + 1))
    (tree : Tree 0 (level + 1) block state.child state.Marked)
    (present : block ≠ 0)
    (supplied : state.Supplies
      (missing 0 state.child block (pathBelow bn.toNat (level + 1))))
    (unlocked : state.Unlocked (level + 1) block)
    (room : state.held.length + (level + 1) < Buf.nBlockBuf)
    (first : bitAt state.dataBitmap 0 = true) :
    ∃ result final, (walkBelow block bn level).Runs state result final := by
  obtain ⟨offset, remainder⟩ := childIndex_of_lt small bound
  have marked := Forest.Tree.marked_entry tree present
  have notHeld : block ∉ state.held := fun locked =>
    (unlocked block locked).2 [] (Nat.succ_pos _) rfl
  have inside : diskIndex block < totalBlocks := by
    rw [marked.diskIndex_eq]
    exact marked.2.1
  have read := bufRead_total notHeld (by omega) inside
  rw [pathBelow, ← remainder, Forest.missing_cons present] at supplied
  unfold walkBelow
  simp only [read.bind_iff, offset]
  generalize Fin.ofNat entryPerBlock (bn.toNat / entryPerBlock ^ level) =
    index at supplied ⊢
  have remainderBound : 0 < level →
      (bn % UInt32.ofNat (entryPerBlock ^ level)).toNat <
        entryPerBlock ^ level := by
    intro _
    rw [remainder]
    exact Nat.mod_lt _ (Nat.pow_pos (by decide))
  -- The locked buffer does not matter for the tree.
  let locked := state.setHeld (block :: state.held)
  have below : Tree 0 level (state.child block index) locked.child
      locked.Marked := tree.below present index
  have suppliedBelow : locked.Supplies (missing 0 locked.child
      (state.child block index)
      (pathBelow (bn % UInt32.ofNat (entryPerBlock ^ level)).toNat level)) :=
    supplied
  have unlockedBelow : locked.Unlocked level (state.child block index) :=
    unlocked.below tree present index
  have roomBelow : locked.held.length + level < Buf.nBlockBuf := by
    show (block :: state.held).length + level < Buf.nBlockBuf
    rw [List.length_cons]
    omega
  obtain ⟨⟨ret, next⟩, middle, walk⟩ := returns remainderBound below
    suppliedBelow unlockedBelow roomBelow first
  obtain ⟨located, _⟩ := locateBlock_located (by omega) walk remainderBound
    below suppliedBelow
  have stillHeld : block ∈ middle.held := by
    rw [located.cache]
    exact List.mem_cons_self
  have walk : (locateBlock (read32 (state.disk (diskIndex block)) (4 * index))
      (bn % UInt32.ofNat (entryPerBlock ^ level)) level).Runs
      (state.setHeld (block :: state.held)) (ret, next) middle := walk
  exact ⟨_, _, (walk.bind_iff).mpr (Program.runs_bind.mpr ⟨(), _,
    bufWrite_total stillHeld _, Program.runs_bind.mpr ⟨(), _,
      bufRelease_total stillHeld, Program.runs_pure.mpr ⟨rfl, rfl⟩⟩⟩)⟩

/-- Walking down a tree returns when the blocks that become index blocks are
free and read as zero. -/
theorem locateBlock_total {level : Nat} (small : level < 4) :
    ReturnsAt level := by
  induction level with
  | zero =>
      intro state entry bn _ _ _ unlocked room first
      obtain ⟨block, final, take⟩ := blockOfEntry_total unlocked room first
      exact ⟨_, _, Program.runs_bind.mpr ⟨_, _, take,
        Program.runs_pure.mpr ⟨rfl, rfl⟩⟩⟩
  | succ level inductionHypothesis =>
      intro state entry bn bound tree supplied unlocked room first
      have returns := inductionHypothesis (Nat.lt_of_succ_lt small)
      obtain ⟨block, start, take⟩ := blockOfEntry_total unlocked
        (by omega) first
      rw [locateBlock_succ]
      simp only [take.bind_iff]
      rcases blockOfEntry_runs take with ⟨present, rfl, rfl⟩ | ⟨rfl, alloc⟩
      · exact walkBelow_total returns (Nat.lt_of_succ_lt small)
          (bound (Nat.succ_pos _)) tree present supplied unlocked room first
      · rw [Forest.missing_null, pathBelow_length] at supplied
        rcases bitmapAllocBlock_takes alloc with
          ⟨none, rfl, rfl⟩ | ⟨taken, notZero, marked, marks, bitmap⟩
        · obtain ⟨next, isFirst, _⟩ := supplied 0 (by omega)
          rw [none] at isFirst
          cases isFirst
        · obtain ⟨_, zeroed, single, supplied'⟩ :=
            fresh_index taken marked bitmap supplied
          obtain ⟨data, rfl⟩ := bitmap
          have unmarked : ¬state.Marked block := by
            apply State.not_marked_of_mem_freeBlocks
            rw [taken]
            exact List.mem_cons_self
          have unlocked' : (state.setDisk 130 data).Unlocked (level + 1)
              block := by
            intro other locked
            have before := (unlocked other locked).1
            refine ⟨(marks other).mpr (Or.inl before), fun path _ => ?_⟩
            cases path with
            | nil =>
                rintro rfl
                exact unmarked before
            | cons index rest =>
                rw [State.blockAt, Forest.value_cons notZero,
                  zeroed.child_eq_zero, Forest.value_null]
                exact before.ne_zero.symm
          have first' : bitAt (state.setDisk 130 data).dataBitmap 0 =
              true := by
            have root : state.Marked 131 := ⟨by decide, by decide, first⟩
            exact ((marks 131).mpr (Or.inl root)).2.2
          exact walkBelow_total returns (Nat.lt_of_succ_lt small)
            (bound (Nat.succ_pos _)) single notZero supplied' unlocked' room
            first'

/-- Finding a numbered block of a locked inode returns when no buffer is
locked. -/
theorem inodeLocateBlock_total
    {ip : Slot} {bn : UInt32} (sound : Sound state)
    (used : (state.icache ip).inodeNum ≠ inodeNumUnused)
    (valid : (state.icache ip).valid = true)
    (bound : bn.toNat < maxBlocks)
    (supplied : state.Supplies
      (state.missingTo (state.icache ip).inodeNum bn.toNat))
    (idle : state.held = []) (first : bitAt state.dataBitmap 0 = true) :
    ∃ ret final, (inodeLocateBlock ip bn).Runs state ret final := by
  obtain ⟨below, same, small, place⟩ := locateIn_eq (locateAddr ip)
    (Program.panic "inode_locate_block: bn too large") bound
  rw [inodeLocateBlock_eq, same]
  generalize (placeOf bn.toNat).1 = k at place small ⊢
  have entry := sound.root_eq used valid k
  have tree : Tree 0 (addrLevel k) ((state.icache ip).data.addrs k)
      state.child state.Marked := by
    rw [← entry]
    exact sound.forest.tree ((state.icache ip).inodeNum, k)
  have supplied : state.Supplies (missing 0 state.child
      ((state.icache ip).data.addrs k)
      (pathBelow below.toNat (addrLevel k))) := by
    unfold State.missingTo at supplied
    rwa [place, entry] at supplied
  have unlocked : state.Unlocked (addrLevel k)
      ((state.icache ip).data.addrs k) := by
    intro block locked
    rw [idle] at locked
    cases locked
  have room : state.held.length + addrLevel k < Buf.nBlockBuf := by
    have size : Buf.nBlockBuf = 64 := rfl
    have := addrLevel_lt k
    rw [idle, List.length_nil]
    omega
  obtain ⟨⟨ret, next⟩, middle, walk⟩ := locateBlock_total (addrLevel_lt k)
    small tree supplied unlocked room first
  exact ⟨ret, _, Program.runs_bind.mpr ⟨_, _, runs_getInode.mpr ⟨rfl, rfl⟩,
    walk.bind_iff.mpr (Program.runs_bind.mpr ⟨(), _,
      runs_modifyData.mpr rfl, Program.runs_pure.mpr ⟨rfl, rfl⟩⟩)⟩⟩

/-! ## Counting the blocks on the way -/

theorem nodup_inits {α : Type*} (path : List α) : path.inits.Nodup := by
  induction path with
  | nil => exact List.nodup_singleton _
  | cons index rest inductionHypothesis =>
      rw [List.inits_cons, List.nodup_cons]
      constructor
      · simp
      · exact inductionHypothesis.map fun _ _ same => (List.cons.inj same).2

/-- The places on the way to a numbered block, its own included. -/
def waysTo (bn : Nat) : Finset Node :=
  ((placeOf bn).2.inits.map ((placeOf bn).1, ·)).toFinset

theorem mem_waysTo {bn : Nat} {k : Fin nAddrs} {path : List ChildIndex} :
    (k, path) ∈ waysTo bn ↔ k = (placeOf bn).1 ∧ path <+: (placeOf bn).2 := by
  simp only [waysTo, List.mem_toFinset, List.mem_map, List.mem_inits,
    Prod.mk.injEq]
  constructor
  · rintro ⟨way, onWay, rfl, rfl⟩
    exact ⟨rfl, onWay⟩
  · rintro ⟨rfl, onWay⟩
    exact ⟨path, onWay, rfl, rfl⟩

/-- The places of an inode that have a block. -/
def State.HasNodes (state : State) (inodeNum : UInt16)
    (nodes : Finset Node) : Prop :=
  ∀ k path, path.length ≤ addrLevel k →
    (state.place (inodeNum, k) path ≠ 0 ↔ (k, path) ∈ nodes)

/-- What is missing on the way to a block. -/
theorem State.HasNodes.missingTo
    {inodeNum : UInt16} {nodes : Finset Node}
    (has : state.HasNodes inodeNum nodes) (bn : Nat) :
    state.missingTo inodeNum bn = (waysTo bn \ nodes).card := by
  have injective : Function.Injective fun way : List ChildIndex =>
      ((placeOf bn).1, way) := fun _ _ same => congrArg Prod.snd same
  have asList : waysTo bn \ nodes = (((placeOf bn).2.inits.map
      ((placeOf bn).1, ·)).filter (· ∉ nodes)).toFinset := by
    ext node
    simp [waysTo]
  rw [asList, List.toFinset_card_of_nodup
    (((nodup_inits _).map injective).filter _), List.filter_map,
    List.length_map]
  unfold State.missingTo
  rw [Forest.missing_eq_length]
  congr 1
  apply List.filter_congr
  intro way onWay
  have short : way.length ≤ addrLevel (placeOf bn).1 := by
    rw [← placeOf_length]
    exact ((List.mem_inits _ _).mp onWay).length_le
  have iff := has (placeOf bn).1 way short
  simp only [Function.comp_apply, decide_eq_decide]
  rw [← iff]
  simp

/-- The byte of an inode at an offset, zero where there is no block. -/
def State.byteAt (state : State) (inodeNum : UInt16) (offset : Nat) : UInt8 :=
  if state.leaf inodeNum (offset / 1024) = 0 then 0
  else state.disk (diskIndex (state.leaf inodeNum (offset / 1024)))
    (offset % 1024)

/-- Finding a block writes no block that holds data. -/
theorem Extended.disk_leaf
    {ip : Slot} {k : Fin nAddrs} {target : List ChildIndex}
    {inodeNum : UInt16} {other : Nat}
    (extended : Extended state final ip k target)
    (present : final.leaf inodeNum other ≠ 0) :
    final.disk (diskIndex (final.leaf inodeNum other)) =
      state.disk (diskIndex (final.leaf inodeNum other)) := by
  have whole := placeOf_length other
  have bound : (placeOf other).2.length ≤
      rootHeight (inodeNum, (placeOf other).1) := whole.le
  have marked := extended.sound.marked_place bound present
  refine extended.disk _ (marked.diskIndex_ne (by decide))
    fun path onPath short => ?_
  exact extended.sound.place_ne_of_lt (Nat.le_of_lt short) whole short
    (extended.index path onPath short)

/-! ## The loop -/

/-- How far a read has come: the places that have a block by now, and those
that will have one in the end.  The blocks from `next` on are those of the
start, and every free block reads as zero. -/
structure Reading (start state : State) (ip : Slot) (next : Nat)
    (nodes goal : Finset Node) : Prop where
  sound : Sound state
  idle : state.held = []
  number : (state.icache ip).inodeNum = (start.icache ip).inodeNum
  used : (start.icache ip).inodeNum ≠ inodeNumUnused
  valid : (state.icache ip).valid = true
  first : bitAt state.dataBitmap 0 = true
  has : state.HasNodes (start.icache ip).inodeNum nodes
  room : (goal \ nodes).card ≤ state.freeBlocks.length
  clean : ∀ block ∈ state.freeBlocks, Zeroed (state.disk block)
  leaves : ∀ bn, next ≤ bn → bn < maxBlocks →
    state.leaf (start.icache ip).inodeNum bn =
      start.leaf (start.icache ip).inodeNum bn ∧
    (start.leaf (start.icache ip).inodeNum bn ≠ 0 →
      state.disk (diskIndex (start.leaf (start.icache ip).inodeNum bn)) =
        start.disk (diskIndex (start.leaf (start.icache ip).inodeNum bn)))

namespace Reading

variable {start middle : State} {ip : Slot} {bn : UInt32}
variable {nodes goal : Finset Node}

theorem enough
    (reading : Reading start state ip bn.toNat nodes goal)
    (onWay : waysTo bn.toNat ⊆ goal) :
    state.missingTo (start.icache ip).inodeNum bn.toNat ≤
      state.freeBlocks.length := by
  rw [reading.has.missingTo]
  exact (Finset.card_le_card (Finset.sdiff_subset_sdiff onWay
    (Finset.Subset.refl _))).trans reading.room

theorem supplies
    (reading : Reading start state ip bn.toNat nodes goal)
    (onWay : waysTo bn.toNat ⊆ goal) :
    state.Supplies (state.missingTo (state.icache ip).inodeNum bn.toNat) := by
  intro k few
  rw [reading.number] at few
  have enough := reading.enough onWay
  have inside : k < state.freeBlocks.length := by omega
  exact ⟨state.freeBlocks[k], List.getElem?_eq_getElem inside,
    reading.clean _ (List.getElem_mem inside)⟩

/-- The free blocks that are left still read as zero. -/
theorem clean_left
    {k : Fin nAddrs} {target : List ChildIndex}
    (reading : Reading start state ip bn.toNat nodes goal)
    (extended : Extended state middle ip k target) :
    ∀ block ∈ middle.freeBlocks, Zeroed (middle.disk block) := by
  intro block free
  have before : block ∈ state.freeBlocks := by
    rw [extended.free] at free
    exact List.mem_of_mem_drop free
  have low := (State.mem_freeBlocks.mp before).1
  rw [extended.disk block (by omega)]
  · exact reading.clean block before
  · intro path onPath short same
    have marked := extended.sound.marked_place (Nat.le_of_lt short)
      (extended.index path onPath short)
    rw [marked.diskIndex_eq] at same
    exact State.not_marked_of_mem_freeBlocks (same ▸ free) marked

/-- The later blocks are as before. -/
theorem leaves_left
    {other : Nat}
    (reading : Reading start state ip bn.toNat nodes goal)
    (bound : bn.toNat < maxBlocks)
    (extended : Extended state middle ip (placeOf bn.toNat).1
      (placeOf bn.toNat).2)
    (later : bn.toNat + 1 ≤ other) (small : other < maxBlocks) :
    middle.leaf (start.icache ip).inodeNum other =
      start.leaf (start.icache ip).inodeNum other ∧
    (start.leaf (start.icache ip).inodeNum other ≠ 0 →
      middle.disk (diskIndex (start.leaf (start.icache ip).inodeNum other)) =
        start.disk
          (diskIndex (start.leaf (start.icache ip).inodeNum other))) := by
  obtain ⟨before, contents⟩ := reading.leaves other (by omega) small
  have same : middle.leaf (start.icache ip).inodeNum other =
      state.leaf (start.icache ip).inodeNum other := by
    rcases extended.kept ((start.icache ip).inodeNum, (placeOf other).1)
      (placeOf other).2 (placeOf_length other).le with
      same | ⟨sameRoot, onPath, _⟩
    · exact same
    · have sameIndex : (placeOf other).1 = (placeOf bn.toNat).1 :=
        congrArg Prod.snd sameRoot
      have samePath : (placeOf other).2 = (placeOf bn.toNat).2 := by
        apply onPath.eq_of_length
        rw [placeOf_length, placeOf_length, sameIndex]
      have equal := placeOf_inj small bound (Prod.ext sameIndex samePath)
      omega
  refine ⟨same.trans before, fun present => ?_⟩
  have kept := extended.disk_leaf (by
    rwa [same, before] : middle.leaf (start.icache ip).inodeNum other ≠ 0)
  rw [same, before] at kept
  rw [kept, contents present]

section Step

variable (reading : Reading start state ip bn.toNat nodes goal)
  (bound : bn.toNat < maxBlocks) (onWay : waysTo bn.toNat ⊆ goal)
  (extended : Extended state middle ip (placeOf bn.toNat).1
    (placeOf bn.toNat).2)

include reading onWay extended

/-- There is a block now. -/
theorem leaf_ne_zero :
    middle.leaf (start.icache ip).inodeNum bn.toNat ≠ 0 := by
  have enough := reading.enough onWay
  rw [← reading.number] at enough ⊢
  exact extended.leaf enough

/-- The places on the way have a block now, the others are as before. -/
theorem hasNodes :
    middle.HasNodes (start.icache ip).inodeNum
      (nodes ∪ waysTo bn.toNat) := by
  have leaf := reading.leaf_ne_zero onWay extended
  intro k path short
  have before := reading.has k path short
  rw [Finset.mem_union, mem_waysTo, ← before]
  have kept := extended.kept ((start.icache ip).inodeNum, k) path short
  rw [reading.number] at kept
  by_cases isOnWay : k = (placeOf bn.toNat).1 ∧ path <+: (placeOf bn.toNat).2
  · obtain ⟨rfl, onPath⟩ := isOnWay
    have present : middle.place ((start.icache ip).inodeNum,
        (placeOf bn.toNat).1) path ≠ 0 := by
      by_cases inner : path.length < addrLevel (placeOf bn.toNat).1
      · rw [← reading.number]
        exact extended.index path onPath inner
      · have whole : path = (placeOf bn.toNat).2 := by
          apply onPath.eq_of_length_le
          rw [placeOf_length]
          omega
        rw [whole]
        exact leaf
    exact iff_of_true present (Or.inr ⟨rfl, onPath⟩)
  · rcases kept with same | ⟨sameRoot, onPath, _⟩
    · rw [same]
      simp only [isOnWay, or_false]
    · exact absurd ⟨congrArg Prod.snd sameRoot, onPath⟩ isOnWay

/-- The blocks taken are those that were missing. -/
theorem room_left :
    (goal \ (nodes ∪ waysTo bn.toNat)).card ≤ middle.freeBlocks.length := by
  have missing := reading.has.missingTo bn.toNat
  have enough := reading.enough onWay
  have room := reading.room
  have parts : _ = (goal \ nodes).card := card_sdiff_union_add onWay
  rw [extended.free, List.length_drop, reading.number]
  rw [← missing] at parts
  unfold State.missingTo at parts enough
  omega

include bound

/-- What the block found holds. -/
theorem leaf_contents
    {offset : Nat} (inside : offset < blockSize) :
    middle.disk (diskIndex (middle.leaf (start.icache ip).inodeNum
        bn.toNat)) offset =
      if start.leaf (start.icache ip).inodeNum bn.toNat = 0 then 0
      else start.disk (diskIndex
        (start.leaf (start.icache ip).inodeNum bn.toNat)) offset := by
  obtain ⟨before, contents⟩ := reading.leaves bn.toNat le_rfl bound
  have present := reading.leaf_ne_zero onWay extended
  rw [extended.disk_leaf present]
  have kept := extended.kept ((start.icache ip).inodeNum,
    (placeOf bn.toNat).1) (placeOf bn.toNat).2 (placeOf_length bn.toNat).le
  split
  · next absent =>
    rcases kept with same | ⟨_, _, _, unmarked, marked⟩
    · have same : middle.leaf (start.icache ip).inodeNum bn.toNat =
          state.leaf (start.icache ip).inodeNum bn.toNat := same
      rw [same, before] at present
      exact absurd absent present
    · have free := State.mem_freeBlocks_of_marked unmarked marked
      have index : diskIndex (middle.leaf (start.icache ip).inodeNum
          bn.toNat) = _ := marked.diskIndex_eq
      rw [index]
      exact reading.clean _ free offset inside
  · next isThere =>
    rcases kept with same | ⟨_, _, absent, _⟩
    · have same : middle.leaf (start.icache ip).inodeNum bn.toNat =
          state.leaf (start.icache ip).inodeNum bn.toNat := same
      rw [same, before, contents isThere]
    · have absent : state.leaf (start.icache ip).inodeNum bn.toNat = 0 :=
        absent
      rw [before] at absent
      exact absurd absent isThere

end Step

/-- Finding the next block of a read. -/
theorem locate
    (reading : Reading start state ip bn.toNat nodes goal)
    (bound : bn.toNat < maxBlocks) (onWay : waysTo bn.toNat ⊆ goal) :
    ∃ ret final, (inodeLocateBlock ip bn).Runs state ret final ∧
      Reading start final ip (bn.toNat + 1) (nodes ∪ waysTo bn.toNat) goal ∧
      final.Marked ret ∧
      ∀ offset, offset < blockSize → final.disk (diskIndex ret) offset =
        if start.leaf (start.icache ip).inodeNum bn.toNat = 0 then 0
        else start.disk (diskIndex
          (start.leaf (start.icache ip).inodeNum bn.toNat)) offset := by
  have used : (state.icache ip).inodeNum ≠ inodeNumUnused := by
    rw [reading.number]
    exact reading.used
  have supplies := reading.supplies onWay
  obtain ⟨ret, middle, run⟩ := inodeLocateBlock_total reading.sound used
    reading.valid bound supplies reading.idle reading.first
  obtain ⟨extended, rfl⟩ := inodeLocateBlock_extended reading.sound used
    reading.valid supplies run
  have transferred := extended.transferred reading.sound
  have root : state.Marked 131 := ⟨by decide, by decide, reading.first⟩
  refine ⟨_, middle, run, ⟨extended.sound, ?_, ?_, reading.used, ?_, ?_,
    reading.hasNodes onWay extended, reading.room_left onWay extended,
    reading.clean_left extended, fun other later small =>
      reading.leaves_left bound extended later small⟩, ?_, ?_⟩
  · rw [transferred.held, reading.idle]
  · rw [transferred.inodeNum, reading.number]
  · rw [transferred.valid, reading.valid]
  · exact (extended.marks 131 root).2.2
  · rw [reading.number]
    exact extended.sound.marked_place (placeOf_length bn.toNat).le
      (reading.leaf_ne_zero onWay extended)
  · intro offset inside
    rw [reading.number]
    exact reading.leaf_contents bound onWay extended inside

end Reading

/-- Reading a block and releasing it again. -/
theorem bufRead_release
    {α : Type} {blockNum : UInt32} {next : Block → FsM α} {result : α}
    (idle : state.held = []) (marked : state.Marked blockNum) :
    (do
      let data ← bufRead blockNum
      bufRelease blockNum
      next data).Runs state result final ↔
    (next (state.disk (diskIndex blockNum))).Runs state result final := by
  have notHeld : blockNum ∉ state.held := by
    rw [idle]
    exact List.not_mem_nil
  have room : state.held.length < Buf.nBlockBuf := by
    rw [idle]
    decide
  have inside : diskIndex blockNum < totalBlocks := by
    rw [marked.diskIndex_eq]
    exact marked.2.1
  have release := bufRelease_total
    (show blockNum ∈ (state.setHeld (blockNum :: state.held)).held from
      List.mem_cons_self)
  rw [(bufRead_total notHeld room inside).bind_iff, release.bind_iff]
  simp

/-- The first bytes of an inode. -/
def State.contents (state : State) (inodeNum : UInt16) (size : Nat) :
    List UInt8 :=
  (List.range size).map (state.byteAt inodeNum)

theorem State.contents_add (inodeNum : UInt16) (size more : Nat) :
    state.contents inodeNum (size + more) = state.contents inodeNum size ++
      (List.range more).map fun index =>
        state.byteAt inodeNum (size + index) := by
  unfold State.contents
  rw [List.range_add, List.map_append, List.map_map]
  rfl

/-- The places on the way to the blocks of a number of bytes. -/
def waysOf (size : Nat) : Finset Node :=
  (Finset.range ((size + 1023) / 1024)).biUnion waysTo

theorem waysTo_subset_waysOf
    {size offset : Nat} (inside : offset < size) :
    waysTo (offset / 1024) ⊆ waysOf size :=
  Finset.subset_biUnion_of_mem waysTo (Finset.mem_range.mpr (by omega))

/-- The loop of a read from the start of the data. -/
theorem readLoop_contents
    {start : State} {ip : Slot} {len total : UInt32} {fuel : Nat}
    (small : len.toNat ≤ inodeMaxSize) (inside : total.toNat ≤ len.toNat)
    (enough : len.toNat - total.toNat ≤ fuel)
    (more : total.toNat < len.toNat → total.toNat % 1024 = 0 ∧ ∃ nodes,
      Reading start state ip (total.toNat / 1024) nodes (waysOf len.toNat)) :
    ∃ final, (readLoop ip total len total
        (start.contents (start.icache ip).inodeNum total.toNat) fuel).Runs
      state (start.contents (start.icache ip).inodeNum len.toNat) final := by
  have sizes : inodeMaxSize = 67643392 ∧ maxBlocks = 66058 := ⟨rfl, rfl⟩
  induction fuel generalizing state total with
  | zero =>
      have all : total.toNat = len.toNat := by omega
      refine ⟨state, Program.runs_pure.mpr ⟨?_, rfl⟩⟩
      rw [all]
  | succ fuel inductionHypothesis =>
      by_cases isMore : total < len
      · have before := UInt32.lt_iff_toNat_lt.mp isMore
        obtain ⟨aligned, nodes, reading⟩ := more before
        have number := blockNumber_toNat total
        have length : (pieceLength total len total).toNat =
            piece total.toNat (len.toNat - total.toNat) :=
          pieceLength_toNat isMore
        have pieceEq : piece total.toNat (len.toNat - total.toNat) =
            min 1024 (len.toNat - total.toNat) := by
          unfold piece
          rw [aligned]
        rw [← number] at reading
        obtain ⟨ret, middle, locate, next, marked, contents⟩ :=
          reading.locate (by omega) (by
            rw [number]
            exact waysTo_subset_waysOf before)
        have bound : total.toNat / 1024 < maxBlocks := by omega
        obtain ⟨_, advance, _⟩ := transfer_next isMore bound
        rw [pieceEq] at advance length
        -- The bytes of this piece.
        have bytes : ((List.range (pieceLength total len total).toNat).map
            fun index => middle.disk (diskIndex ret)
              ((total % 1024).toNat + index)) =
            (List.range (pieceLength total len total).toNat).map fun index =>
              start.byteAt (start.icache ip).inodeNum
                (total.toNat + index) := by
          apply List.map_congr_left
          intro index member
          have small := List.mem_range.mp member
          have remainder : (total % 1024).toNat = 0 := by
            rw [UInt32.toNat_mod]
            exact aligned
          have size : blockSize = 1024 := rfl
          rw [remainder, Nat.zero_add, contents index (by omega), number]
          unfold State.byteAt
          rw [show (total.toNat + index) / 1024 = total.toNat / 1024 by omega,
            show (total.toNat + index) % 1024 = index by omega]
        have later : (total + pieceLength total len total).toNat < len.toNat →
            (total + pieceLength total len total).toNat % 1024 = 0 ∧
            ∃ nodes, Reading start middle ip
              ((total + pieceLength total len total).toNat / 1024) nodes
              (waysOf len.toNat) := by
          intro again
          rw [show (total + pieceLength total len total).toNat / 1024 =
            (total / 1024).toNat + 1 by omega]
          exact ⟨by omega, _, next⟩
        obtain ⟨final, run⟩ := inductionHypothesis (by omega) (by omega) later
        rw [advance, ← length, State.contents_add, ← bytes] at run
        refine ⟨final, ?_⟩
        simp only [readLoop, if_pos isMore]
        rw [locate.bind_iff, bufRead_release next.idle marked]
        exact run
      · have all : total.toNat = len.toNat := by
          have := UInt32.le_iff_toNat_le.mp (UInt32.not_lt.mp isMore)
          omega
        refine ⟨state, ?_⟩
        simp only [readLoop, if_neg isMore, Program.runs_pure, all, and_self]

/-- Reading all data of a locked inode.  The slot says how much there is, and
what has no block reads as zero. -/
theorem inodeReadData_contents
    {ip : Slot} {nodes : Finset Node} (sound : Sound state)
    (idle : state.held = [])
    (locked : (state.icache ip).slk = true)
    (used : (state.icache ip).inodeNum ≠ inodeNumUnused)
    (valid : (state.icache ip).valid = true)
    (small : (state.icache ip).data.size.toNat ≤ inodeMaxSize)
    (first : bitAt state.dataBitmap 0 = true)
    (has : state.HasNodes (state.icache ip).inodeNum nodes)
    (room : (waysOf (state.icache ip).data.size.toNat \ nodes).card ≤
      state.freeBlocks.length)
    (clean : ∀ block ∈ state.freeBlocks, Zeroed (state.disk block)) :
    ∃ final, (inodeReadData ip 0 (state.icache ip).data.size).Runs state
      (state.contents (state.icache ip).inodeNum
        (state.icache ip).data.size.toNat) final := by
  have reading : Reading state state ip 0 nodes
      (waysOf (state.icache ip).data.size.toNat) :=
    ⟨sound, idle, rfl, used, valid, first, has, room, clean, fun _ _ _ =>
      ⟨rfl, fun _ => rfl⟩⟩
  have assertion : (Program.assert (state.icache ip).slk
      "inode_read_data: no lock" : FsM Unit).Runs state () state :=
    Program.runs_assert.mpr ⟨locked, rfl⟩
  unfold inodeReadData
  simp only [(runs_getInode.mpr ⟨rfl, rfl⟩ : (getInode ip).Runs state
    (state.icache ip) state).bind_iff, assertion.bind_iff]
  by_cases empty : (state.icache ip).data.size = 0
  · refine ⟨state, ?_⟩
    rw [empty, if_pos (by decide), Program.runs_pure]
    exact ⟨rfl, rfl⟩
  · have notBefore : ¬(0 : UInt32) ≥ (state.icache ip).data.size := by
      intro atEnd
      apply empty
      apply UInt32.toNat_inj.mp
      have := UInt32.le_iff_toNat_le.mp atEnd
      exact Nat.le_zero.mp this
    have notCut : ¬(0 + (state.icache ip).data.size >
        (state.icache ip).data.size) := by
      rw [UInt32.zero_add]
      exact UInt32.lt_irrefl _
    rw [if_neg notBefore, if_neg notCut]
    exact readLoop_contents small (Nat.zero_le _) le_rfl fun _ =>
      ⟨rfl, nodes, reading⟩

end Fs
end WhuOs
