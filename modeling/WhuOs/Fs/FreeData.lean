import WhuOs.Fs.Ranges
import WhuOs.Library.Walk

/-!
# Freeing the data of an inode

`data_free` follows the entries of an index block up to the first empty one, and
the bit of the first data block is never cleared.  So `inode_free_data` frees
the data of an inode exactly when no index block has an entry behind an empty
one and the block of the root directory is not among them.
-/

namespace WhuOs
namespace Fs

open Library
open Library.Bytes
open Library.Forest (Tree walk)
open Program (Runs)

variable {state final : State}

/-! ## Clearing bits -/

/-- Clear the bits of blocks.  Bit 0, of the root directory, stays. -/
def clearBlocks (data : Block) (blocks : List UInt32) : Block :=
  blocks.foldl (fun data block =>
    if block = rootBlock then data
    else clearBit data (block.toNat - 131)) data

theorem clearBlocks_append (data : Block) (blocks blocks' : List UInt32) :
    clearBlocks data (blocks ++ blocks') =
      clearBlocks (clearBlocks data blocks) blocks' :=
  List.foldl_append

theorem bitAt_clearBlocks
    {data : Block} {blocks : List UInt32}
    (behind : ∀ block ∈ blocks, 131 ≤ block.toNat) (number : Nat) :
    bitAt (clearBlocks data blocks) number = true ↔
      bitAt data number = true ∧
        ¬(number ≠ 0 ∧ ∃ block ∈ blocks, block.toNat = 131 + number) := by
  induction blocks generalizing data with
  | nil => simp [clearBlocks]
  | cons block rest inductionHypothesis =>
      have later := fun other member =>
        behind other (List.mem_cons_of_mem block member)
      have here := behind block List.mem_cons_self
      unfold clearBlocks at inductionHypothesis ⊢
      rw [List.foldl_cons, inductionHypothesis later]
      simp only [List.mem_cons, exists_eq_or_imp]
      by_cases isRoot : block = rootBlock
      · have first : block.toNat = 131 := by rw [isRoot]; rfl
        rw [if_pos isRoot]
        refine and_congr_right fun _ => not_congr (and_congr_right
          fun notZero => ?_)
        constructor
        · exact Or.inr
        · rintro (same | found)
          · omega
          · exact found
      · have differs : block.toNat ≠ 131 := fun same =>
          isRoot (UInt32.toNat_inj.mp same)
        rw [if_neg isRoot, bitAt_clearBit, Bool.and_eq_true,
          decide_eq_true_eq]
        constructor
        · rintro ⟨⟨other, set⟩, kept⟩
          refine ⟨set, ?_⟩
          rintro ⟨notZero, same | found⟩
          · omega
          · exact kept ⟨notZero, found⟩
        · rintro ⟨set, kept⟩
          refine ⟨⟨fun same => kept ⟨?_, Or.inl ?_⟩, set⟩, fun found =>
            kept ⟨found.1, Or.inr found.2⟩⟩
          · omega
          · omega

/-! ## Freeing a tree -/

theorem entriesBeforeHole_eq (block : UInt32) :
    entriesBeforeHole (state.disk (diskIndex block)) =
      Forest.entriesFrom 0 state.child block := by
  unfold entriesBeforeHole Forest.entriesFrom
  rw [← List.map_coe_finRange_eq_range, List.map_map]
  rfl

/-- Clearing the bit of a taken block. -/
theorem bitmapFreeBlock_clears
    {block : UInt32} (marked : state.Marked block)
    {held : List UInt32} (unlocked : dataBitmapStart ∉ held)
    (room : held.length < Buf.nBlockBuf) (data : Block) :
    (bitmapFreeBlock block).Runs ((state.setHeld held).setDisk 130 data) ()
      ((state.setHeld held).setDisk 130 (clearBlocks data [block])) := by
  let before := (state.setHeld held).setDisk 130 data
  have bitmap : before.dataBitmap = data := by
    unfold State.dataBitmap
    rw [State.setDisk_disk, Function.update_self]
  obtain ⟨after, run⟩ := @bitmapFreeBlock_total before unlocked room block
  suffices same : after = (state.setHeld held).setDisk 130
      (clearBlocks data [block]) by
    rwa [same] at run
  have single : clearBlocks data [block] =
      if block = rootBlock then data
      else clearBit data (block.toNat - 131) := rfl
  obtain ⟨low, high, _⟩ := marked
  rcases bitmapFreeBlock_runs run with ⟨outside, rfl⟩ | ⟨number, notZero,
    toNat, _, rfl⟩
  · have isRoot : block = rootBlock :=
      UInt32.toNat_inj.mp (show block.toNat = 131 by omega)
    rw [single, if_pos isRoot]
  · have notRoot : block ≠ rootBlock := by
      rintro rfl
      have first : rootBlock.toNat = 131 := rfl
      omega
    rw [single, if_neg notRoot, bitmap, toNat, Nat.add_sub_cancel_left]
    exact setDisk_setDisk 130 data _

/-- Freeing entries one after the other. -/
theorem forM_dataFree
    {entries : List UInt32} {level : Nat} {held : List UInt32}
    (each : ∀ entry ∈ entries, ∀ data, (dataFree entry level).Runs
      ((state.setHeld held).setDisk 130 data) ()
      ((state.setHeld held).setDisk 130
        (clearBlocks data (walk 0 state.child entry level)))) (data : Block) :
    (entries.forM fun entry => dataFree entry level).Runs
      ((state.setHeld held).setDisk 130 data) ()
      ((state.setHeld held).setDisk 130 (clearBlocks data
        (entries.flatMap fun entry => walk 0 state.child entry level))) := by
  induction entries generalizing data with
  | nil => exact Program.runs_pure.mpr ⟨rfl, rfl⟩
  | cons entry rest inductionHypothesis =>
      rw [List.flatMap_cons, clearBlocks_append]
      exact Program.runs_bind.mpr ⟨(), _, each entry List.mem_cons_self data,
        inductionHypothesis (fun other member =>
          each other (List.mem_cons_of_mem entry member)) _⟩

/-- Freeing a tree clears the bits of the blocks that a walk visits.  While it
runs, blocks of the tree are no longer taken, so the tree is one of the state
before. -/
theorem dataFree_clears
    {level : Nat} (small : level < 4) {entry : UInt32} {held : List UInt32}
    (tree : Tree 0 level entry state.child state.Marked)
    (present : entry ≠ 0)
    (unlocked : (state.setHeld held).Unlocked level entry)
    (room : held.length + level < Buf.nBlockBuf) (data : Block) :
    (dataFree entry level).Runs ((state.setHeld held).setDisk 130 data) ()
      ((state.setHeld held).setDisk 130
        (clearBlocks data (walk 0 state.child entry level))) := by
  have notZero : (Program.assert (decide (entry ≠ 0))
      "data_free: block_num = 0").Runs
        ((state.setHeld held).setDisk 130 data) ()
        ((state.setHeld held).setDisk 130 data) :=
    Program.runs_assert.mpr ⟨decide_eq_true present, rfl⟩
  have marked := Forest.Tree.marked_entry tree present
  induction level generalizing entry held data with
  | zero =>
      unfold dataFree
      rw [notZero.bind_iff]
      exact bitmapFreeBlock_clears marked unlocked.bitmap room data
  | succ level inductionHypothesis =>
      have notHeld : entry ∉ held := fun locked =>
        (unlocked entry locked).2 [] (Nat.succ_pos _) rfl
      have roomHere : held.length < Buf.nBlockBuf := by omega
      have place : diskIndex entry ≠ 130 := marked.diskIndex_ne (by decide)
      have inside : diskIndex entry < totalBlocks := by
        rw [marked.diskIndex_eq]
        exact marked.2.1
      let before := (state.setHeld held).setDisk 130 data
      have read : (bufRead entry).Runs before (before.disk (diskIndex entry))
          ((state.setHeld (entry :: held)).setDisk 130 data) :=
        @bufRead_total before _ notHeld roomHere inside
      have same : before.disk (diskIndex entry) =
          state.disk (diskIndex entry) :=
        Function.update_of_ne place _ _
      have each : ∀ next ∈ Forest.entriesFrom 0 state.child entry, ∀ data,
          (dataFree next level).Runs
            ((state.setHeld (entry :: held)).setDisk 130 data) ()
            ((state.setHeld (entry :: held)).setDisk 130
              (clearBlocks data (walk 0 state.child next level))) := by
        intro next entryOf data
        obtain ⟨index, early, rfl⟩ := Forest.mem_entriesFrom.mp entryOf
        have notMissing := early index (Nat.le_refl _)
        have treeBelow := Forest.Tree.below tree present index
        have roomBelow : (entry :: held).length + level < Buf.nBlockBuf := by
          rw [List.length_cons]
          omega
        exact inductionHypothesis (Nat.lt_of_succ_lt small) treeBelow
          notMissing (unlocked.below tree present index) roomBelow data
          (Program.runs_assert.mpr ⟨decide_eq_true notMissing, rfl⟩)
          (Forest.Tree.marked_entry treeBelow notMissing)
      have entries := forM_dataFree each data
      have release : ∀ data, (bufRelease entry).Runs
          ((state.setHeld (entry :: held)).setDisk 130 data) ()
          ((state.setHeld held).setDisk 130 data) := by
        intro data
        have released := @bufRelease_total
          ((state.setHeld (entry :: held)).setDisk 130 data) entry
          List.mem_cons_self
        have erased : (entry :: held).erase entry = held :=
          List.erase_cons_head ..
        simp only [State.setDisk_held, State.setHeld_held, erased] at released
        exact released
      rw [walk, clearBlocks_append]
      unfold dataFree
      rw [notZero.bind_iff, read.bind_iff, same, entriesBeforeHole_eq,
        entries.bind_iff, (release _).bind_iff]
      exact bitmapFreeBlock_clears marked unlocked.bitmap roomHere _

/-! ## Freeing an inode -/

section Inode

variable {ip : Slot}

/-- Clear block numbers of an inode. -/
def Dinode.clearAddrs (dinode : Dinode) (ks : List (Fin nAddrs)) : Dinode :=
  ks.foldl (fun dinode k => dinode.setAddr k 0) dinode

theorem clearAddrs_addrs
    (dinode : Dinode) (ks : List (Fin nAddrs)) (k : Fin nAddrs) :
    (dinode.clearAddrs ks).addrs k =
      if k ∈ ks then 0 else dinode.addrs k := by
  unfold Dinode.clearAddrs
  induction ks generalizing dinode with
  | nil => rfl
  | cons first rest inductionHypothesis =>
      rw [List.foldl_cons, inductionHypothesis]
      by_cases later : k ∈ rest
      · rw [if_pos later, if_pos (List.mem_cons_of_mem first later)]
      · rw [if_neg later]
        by_cases same : k = first
        · subst same
          rw [if_pos List.mem_cons_self]
          exact Function.update_self _ _ _
        · rw [if_neg (by simp [same, later])]
          exact Function.update_of_ne same _ _

/-- The blocks that are visited when the data of an inode is freed. -/
def visitedBlocks (state : State) (dinode : Dinode)
    (ks : List (Fin nAddrs)) : List UInt32 :=
  ks.flatMap fun k =>
    if dinode.addrs k = 0 then []
    else walk 0 state.child (dinode.addrs k) (addrLevel k)

/-- While data is freed, the bitmap and the slot of the inode change. -/
def State.freeing (state : State) (ip : Slot) (data : Block)
    (dinode : Dinode) : State :=
  (state.setDisk 130 data).setInode ip ((state.icache ip).setData dinode)

theorem freeing_setData (data : Block) (dinode dinode' : Dinode) :
    (state.freeing ip data dinode).setData ip dinode' =
      state.freeing ip data dinode' := by
  unfold State.setData State.freeing
  rw [State.setInode_setInode, State.setInode_icache, Function.update_self]
  rfl

theorem freeing_icache (data : Block) (dinode : Dinode) :
    (state.freeing ip data dinode).icache ip =
      (state.icache ip).setData dinode := by
  unfold State.freeing
  rw [State.setInode_icache, Function.update_self]

/-- Freeing what is below one block number. -/
theorem freeAddr_clears
    (wellFormed : WellFormed state ip) (idle : state.held = [])
    {data : Block} {dinode : Dinode} {k : Fin nAddrs}
    (same : dinode.addrs k = (state.icache ip).data.addrs k) :
    (freeAddr ip k).Runs (state.freeing ip data dinode) ()
      (state.freeing ip
        (clearBlocks data (visitedBlocks state (state.icache ip).data [k]))
        (dinode.setAddr k 0)) := by
  have inode : (getInode ip).Runs (state.freeing ip data dinode)
      ((state.icache ip).setData dinode) (state.freeing ip data dinode) :=
    runs_getInode.mpr ⟨freeing_icache data dinode, rfl⟩
  have visited : visitedBlocks state (state.icache ip).data [k] =
      if dinode.addrs k = 0 then []
      else walk 0 state.child (dinode.addrs k) (addrLevel k) := by
    unfold visitedBlocks
    rw [List.flatMap_singleton, same]
  unfold freeAddr
  rw [inode.bind_iff, Inode.setData_data, visited]
  by_cases missing : dinode.addrs k = 0
  · have kept : dinode.setAddr k 0 = dinode := by
      rw [← missing, setAddr_self]
    rw [if_neg (not_not.mpr missing), if_pos missing, kept]
    exact Program.runs_pure.mpr ⟨rfl, rfl⟩
  · let whole := state.setInode ip ((state.icache ip).setData dinode)
    have size : Buf.nBlockBuf = 64 := rfl
    have room : ([] : List UInt32).length + addrLevel k < Buf.nBlockBuf := by
      have := addrLevel_lt k
      rw [List.length_nil]
      omega
    have tree : Tree 0 (addrLevel k) (dinode.addrs k) whole.child
        whole.Marked := by
      rw [same]
      exact Forest.Sound.tree wellFormed k
    have unlocked : (whole.setHeld []).Unlocked (addrLevel k)
        (dinode.addrs k) := fun _ locked => absurd locked List.not_mem_nil
    have free := dataFree_clears (addrLevel_lt k) tree missing unlocked room
      data
    have start : ∀ data, (whole.setHeld []).setDisk 130 data =
        state.freeing ip data dinode := by
      intro data
      simp only [whole, State.freeing, State.setDisk, State.setHeld,
        State.setInode, idle]
    rw [start, start] at free
    rw [if_pos missing, if_neg missing, free.bind_iff, runs_modifyData,
      freeing_icache, Inode.setData_data]
    exact freeing_setData _ _ _

/-- Freeing what is below several block numbers. -/
theorem forM_freeAddr
    {ks : List (Fin nAddrs)} (nodup : ks.Nodup)
    (wellFormed : WellFormed state ip) (idle : state.held = [])
    {data : Block} {dinode : Dinode}
    (same : ∀ k ∈ ks, dinode.addrs k = (state.icache ip).data.addrs k) :
    (ks.forM fun k => freeAddr ip k).Runs (state.freeing ip data dinode) ()
      (state.freeing ip
        (clearBlocks data (visitedBlocks state (state.icache ip).data ks))
        (dinode.clearAddrs ks)) := by
  induction ks generalizing data dinode with
  | nil => exact Program.runs_pure.mpr ⟨rfl, rfl⟩
  | cons k rest inductionHypothesis =>
      obtain ⟨fresh, nodup⟩ := List.nodup_cons.mp nodup
      have first : (freeAddr ip k).Runs (state.freeing ip data dinode) ()
          (state.freeing ip (clearBlocks data
            (visitedBlocks state (state.icache ip).data [k]))
            (dinode.setAddr k 0)) :=
        freeAddr_clears wellFormed idle (same k List.mem_cons_self)
      have others : ∀ j ∈ rest, (dinode.setAddr k 0).addrs j =
          (state.icache ip).data.addrs j := by
        intro j member
        have differs : j ≠ k := by
          rintro rfl
          exact fresh member
        rw [← same j (List.mem_cons_of_mem k member)]
        exact Function.update_of_ne differs _ _
      have split : visitedBlocks state (state.icache ip).data (k :: rest) =
          visitedBlocks state (state.icache ip).data [k] ++
            visitedBlocks state (state.icache ip).data rest := by
        unfold visitedBlocks
        rw [List.flatMap_cons, List.flatMap_singleton]
      rw [split, clearBlocks_append]
      exact Program.runs_bind.mpr ⟨(), _, first,
        inductionHypothesis nodup others⟩

/-- Freeing the data of an inode clears the bits of the blocks that the walks
from its block numbers visit. -/
theorem inodeFreeData_clears
    (locked : (state.icache ip).slk = true)
    (wellFormed : WellFormed state ip) (idle : state.held = []) :
    (inodeFreeData ip).Runs state () (state.freeing ip
      (clearBlocks state.dataBitmap (visitedBlocks state
        (state.icache ip).data (List.finRange nAddrs)))
      (((state.icache ip).data.clearAddrs (List.finRange nAddrs)).setSize
        0)) := by
  have inode : (getInode ip).Runs state (state.icache ip) state :=
    runs_getInode.mpr ⟨rfl, rfl⟩
  have isLocked : (Program.assert (state.icache ip).slk
      "inode_free_data: no lock").Runs state () state :=
    Program.runs_assert.mpr ⟨locked, rfl⟩
  have start : state.freeing ip state.dataBitmap (state.icache ip).data =
      state := by
    unfold State.freeing State.dataBitmap
    rw [setDisk_self]
    exact setData_self ip
  have frees : ((List.finRange nAddrs).forM fun k => freeAddr ip k).Runs
      (state.freeing ip state.dataBitmap (state.icache ip).data) ()
      (state.freeing ip _ _) :=
    forM_freeAddr (List.nodup_finRange nAddrs) wellFormed idle fun k _ => rfl
  rw [start] at frees
  unfold inodeFreeData
  rw [inode.bind_iff, isLocked.bind_iff, frees.bind_iff, runs_modifyData,
    freeing_icache, Inode.setData_data]
  exact freeing_setData _ _ _

/-- A block is one of the data and index blocks of an inode. -/
def Owns (state : State) (ip : Slot) (block : UInt32) : Prop :=
  block ≠ 0 ∧ ∃ k path, path.length ≤ addrLevel k ∧
    state.blockAt ((state.icache ip).data.addrs k) path = block

/-- Freeing the data of an inode clears the bits of its blocks and no other bit
of the bitmap, and leaves the inode empty. -/
def FreesAll (state : State) (ip : Slot) : Prop :=
  ∃ final, (inodeFreeData ip).Runs state () final ∧
    (∀ number < dataBlocks, bitAt final.dataBitmap number = true ↔
      bitAt state.dataBitmap number = true ∧
        ¬Owns state ip (UInt32.ofNat (131 + number))) ∧
    (∀ k, (final.icache ip).data.addrs k = 0) ∧
    (final.icache ip).data.size = 0

/-- The index blocks of an inode have no entry behind an empty one. -/
def WithoutHoles (state : State) (ip : Slot) : Prop :=
  Forest.Dense 0 addrLevel (state.icache ip).data.addrs state.child

theorem owns_of_visited
    {block : UInt32} (present : block ≠ 0)
    (visited : block ∈ visitedBlocks state (state.icache ip).data
      (List.finRange nAddrs)) :
    ∃ k, (state.icache ip).data.addrs k ≠ 0 ∧
      block ∈ walk 0 state.child ((state.icache ip).data.addrs k)
        (addrLevel k) ∧ Owns state ip block := by
  obtain ⟨k, _, visited⟩ := List.mem_flatMap.mp visited
  split at visited
  · cases visited
  · next notRoot =>
    obtain ⟨path, bound, _, same⟩ := (Forest.mem_walk notRoot).mp visited
    exact ⟨k, notRoot, visited, present, k, path, bound, same⟩

theorem Owns.marked
    {block : UInt32} (wellFormed : WellFormed state ip)
    (owns : Owns state ip block) : state.Marked block := by
  obtain ⟨present, k, path, bound, rfl⟩ := owns
  exact wellFormed.marked k path bound present

/-- Every visited block is behind the bitmap. -/
theorem visited_behind
    (wellFormed : WellFormed state ip) :
    ∀ block ∈ visitedBlocks state (state.icache ip).data
      (List.finRange nAddrs), 131 ≤ block.toNat := by
  intro block visited
  obtain ⟨k, _, visited⟩ := List.mem_flatMap.mp visited
  split at visited
  · cases visited
  · next notRoot =>
    obtain ⟨path, bound, walked, rfl⟩ := (Forest.mem_walk notRoot).mp visited
    exact (wellFormed.marked k path bound
      (Forest.walked_value notRoot walked)).1

theorem number_of_block
    {block : UInt32} (low : 131 ≤ block.toNat)
    (high : block.toNat < totalBlocks) :
    block.toNat - 131 < dataBlocks ∧
      UInt32.ofNat (131 + (block.toNat - 131)) = block := by
  have sizes : dataBlocks = 8192 ∧ totalBlocks = 8323 := ⟨rfl, rfl⟩
  refine ⟨by omega, ?_⟩
  rw [Nat.add_sub_cancel' low, UInt32.ofNat_toNat]

theorem block_of_number
    {number : Nat} (small : number < dataBlocks) :
    (UInt32.ofNat (131 + number)).toNat = 131 + number := by
  have size : dataBlocks = 8192 := rfl
  rw [UInt32.toNat_ofNat']
  exact Nat.mod_eq_of_lt (by omega)

/-- Freeing the data of an inode frees all of it exactly when no index block
has an entry behind an empty one and the first data block is not one of its
blocks. -/
theorem freesAll_iff
    (locked : (state.icache ip).slk = true)
    (wellFormed : WellFormed state ip) (idle : state.held = []) :
    FreesAll state ip ↔
      WithoutHoles state ip ∧ ¬Owns state ip rootBlock := by
  have run := inodeFreeData_clears locked wellFormed idle
  have bits : ∀ number, bitAt (clearBlocks state.dataBitmap (visitedBlocks
      state (state.icache ip).data (List.finRange nAddrs))) number = true ↔ _ :=
    bitAt_clearBlocks (visited_behind wellFormed)
  constructor
  · rintro ⟨final, run', exact, _⟩
    obtain ⟨_, rfl⟩ := run'.deterministic run
    have visited : ∀ block, Owns state ip block → block ≠ rootBlock ∧
        block ∈ visitedBlocks state (state.icache ip).data
          (List.finRange nAddrs) := by
      intro block owns
      obtain ⟨low, high, set⟩ := owns.marked wellFormed
      obtain ⟨small, number⟩ := number_of_block low high
      have cleared := fun kept => ((exact _ small).mp kept).2
        (number.symm ▸ owns)
      obtain ⟨notZero, other, member, same⟩ :=
        not_not.mp fun kept => cleared ((bits _).mpr ⟨set, kept⟩)
      obtain rfl : other = block := UInt32.toNat_inj.mp (by omega)
      refine ⟨?_, member⟩
      rintro rfl
      exact notZero rfl
    refine ⟨?_, fun owns => (visited _ owns).1 rfl⟩
    refine (wellFormed.walk_complete_iff).mp fun k path bound present => ?_
    obtain ⟨k', notRoot, member, _⟩ := owns_of_visited present
      (visited _ ⟨present, k, path, bound, rfl⟩).2
    exact ⟨k', notRoot, member⟩
  · rintro ⟨dense, notFirst⟩
    refine ⟨_, run, fun number small => ?_, fun k => ?_, ?_⟩
    · refine (bits number).trans (and_congr_right fun set => not_congr ?_)
      have toNat : (UInt32.ofNat (131 + number)).toNat = 131 + number :=
        block_of_number small
      constructor
      · rintro ⟨_, block, member, same⟩
        have here : UInt32.ofNat (131 + number) = block :=
          UInt32.toNat_inj.mp (by omega)
        rw [here]
        have present : block ≠ 0 := by
          rintro rfl
          rw [UInt32.toNat_zero] at same
          omega
        exact (owns_of_visited present member).choose_spec.2.2
      · intro owns
        refine ⟨?_, _, ?_, toNat⟩
        · rintro rfl
          exact notFirst owns
        · obtain ⟨present, k, path, bound, same⟩ := owns
          rw [← same] at present ⊢
          obtain ⟨k', notRoot, member⟩ :=
            (wellFormed.walk_complete_iff).mpr dense k path bound present
          refine List.mem_flatMap.mpr ⟨k', List.mem_finRange k', ?_⟩
          rw [if_neg notRoot]
          exact member
    · rw [freeing_icache]
      show ((state.icache ip).data.clearAddrs (List.finRange nAddrs)).addrs k =
        0
      rw [clearAddrs_addrs, if_pos (List.mem_finRange k)]
    · rw [freeing_icache]
      rfl

end Inode

/-- A locked file with one block behind a hole: its single-indirect block
`132` has only the entry with index 1. -/
def sparseFile : State where
  disk index :=
    if index = 130 then Function.update zeroBlock 0 7
    else if index = 132 then write32 zeroBlock 4 133
    else zeroBlock
  held := []
  icache _ := ⟨⟨ftFile, 0, 0, 1, 11265, fun k => if k = 10 then 132 else 0⟩, 1,
    1, true, true⟩
  lkIcache := false

theorem sparseFile_child :
    ∀ index, sparseFile.child 132 index = if index = 1 then 133 else 0 := by
  decide +kernel

theorem sparseFile_blocks
    {k : Fin nAddrs} {path : List ChildIndex} (bound : path.length ≤ addrLevel k)
    (present : Forest.value 0 sparseFile.child
      ((sparseFile.icache 0).data.addrs k) path ≠ 0) :
    k = 10 ∧ (path = [] ∧ Forest.value 0 sparseFile.child
        ((sparseFile.icache 0).data.addrs k) path = 132 ∨
      path = [1] ∧ Forest.value 0 sparseFile.child
        ((sparseFile.icache 0).data.addrs k) path = 133) := by
  by_cases isIndex : k = 10
  · subst isIndex
    have entry : (sparseFile.icache 0).data.addrs 10 = 132 := rfl
    have notZero : (132 : UInt32) ≠ 0 := by decide
    have level : addrLevel 10 = 1 := rfl
    rw [entry] at present ⊢
    rw [level] at bound
    refine ⟨rfl, ?_⟩
    cases path with
    | nil => exact Or.inl ⟨rfl, rfl⟩
    | cons index rest =>
        obtain rfl := List.length_eq_zero_iff.mp
          (Nat.le_zero.mp (Nat.le_of_succ_le_succ bound))
        rw [Forest.value_cons notZero, Forest.value_nil,
          sparseFile_child] at present ⊢
        by_cases second : index = 1
        · subst second
          exact Or.inr ⟨rfl, rfl⟩
        · rw [if_neg second] at present
          exact absurd rfl present
  · have missing : (sparseFile.icache 0).data.addrs k = 0 := if_neg isIndex
    rw [missing, Forest.value_null] at present
    exact absurd rfl present

theorem sparseFile_wellFormed : WellFormed sparseFile 0 := by
  refine ⟨fun k path bound present => ?_,
    fun k k' path path' bound bound' present same => ?_⟩
  · rcases (sparseFile_blocks bound present).2 with ⟨_, value⟩ | ⟨_, value⟩
    · rw [value]
      exact ⟨by decide, by decide, by decide +kernel⟩
    · rw [value]
      exact ⟨by decide, by decide, by decide +kernel⟩
  · obtain ⟨rfl, places⟩ := sparseFile_blocks bound present
    rw [same] at present places
    obtain ⟨rfl, places'⟩ := sparseFile_blocks bound' present
    refine ⟨rfl, ?_⟩
    rcases places with ⟨rfl, value⟩ | ⟨rfl, value⟩ <;>
      rcases places' with ⟨rfl, value'⟩ | ⟨rfl, value'⟩
    · rfl
    · rw [value] at value'
      exact absurd value' (by decide)
    · rw [value] at value'
      exact absurd value' (by decide)
    · rfl

/-- The block behind the hole of the sparse file is not freed. -/
theorem freeData_leaks :
    ¬∀ (state : State) (ip : Slot), (state.icache ip).slk = true →
      WellFormed state ip → state.held = [] → FreesAll state ip := by
  intro all
  obtain ⟨final, run, exact, _⟩ := all sparseFile 0 rfl sparseFile_wellFormed
    rfl
  obtain ⟨_, rfl⟩ := run.deterministic
    (inodeFreeData_clears rfl sparseFile_wellFormed rfl)
  have owned : Owns sparseFile 0 133 := by
    refine ⟨by decide, 10, [1], by decide, ?_⟩
    have entry : (sparseFile.icache 0).data.addrs 10 = 132 := rfl
    rw [State.blockAt, entry, Forest.value_cons (by decide),
      Forest.value_nil, sparseFile_child]
    rfl
  refine ((exact 2 (by decide)).mp ?_).2 owned
  refine (bitAt_clearBlocks (visited_behind sparseFile_wellFormed) 2).mpr
    ⟨by decide +kernel, ?_⟩
  rintro ⟨_, block, visited, isThird⟩
  obtain rfl : block = 133 := UInt32.toNat_inj.mp isThird
  obtain ⟨k, _, visited⟩ := List.mem_flatMap.mp visited
  split at visited
  · cases visited
  · next notRoot =>
    obtain ⟨path, bound, walked, same⟩ := (Forest.mem_walk notRoot).mp visited
    have present : Forest.value 0 sparseFile.child
        ((sparseFile.icache 0).data.addrs k) path ≠ 0 := by
      rw [same]
      decide
    obtain ⟨rfl, ⟨_, value⟩ | ⟨rfl, _⟩⟩ := sparseFile_blocks bound present
    · rw [same] at value
      exact absurd value (by decide)
    · exact walked.1 0 (by decide) (sparseFile_child 0)

/-- All data of the small file is freed. -/
theorem freesAll_smallFile : FreesAll smallFile 0 := by
  have single : ∀ (k : Fin nAddrs) (path : List ChildIndex),
      path.length ≤ addrLevel k →
      smallFile.blockAt ((smallFile.icache 0).data.addrs k) path ≠ 0 →
      smallFile.blockAt ((smallFile.icache 0).data.addrs k) path = 132 ∧
        addrLevel k = 0 := by
    intro k path bound present
    by_cases isFirst : k = 0
    · subst isFirst
      rw [List.length_eq_zero_iff.mp (Nat.le_zero.mp bound)]
      exact ⟨rfl, rfl⟩
    · have missing : (smallFile.icache 0).data.addrs k = 0 := if_neg isFirst
      rw [missing, State.blockAt, Forest.value_null] at present
      exact absurd rfl present
  refine (freesAll_iff rfl smallFile_allocated.wellFormed rfl).mpr ⟨?_, ?_⟩
  · intro k path index short present
    have level := (single k path (Nat.le_of_lt short) present).2
    omega
  · rintro ⟨present, k, path, bound, same⟩
    rw [← same] at present
    rw [(single k path bound present).1] at same
    exact absurd same (by decide)

end Fs
end WhuOs
