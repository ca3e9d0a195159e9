import WhuOs.Fs.SparseReads
import WhuOs.Library.TransitionSystem

/-!
# The places of blocks

Locating a numbered block of an inode creates it together with the index blocks
that lead to it, and from then on every call finds it again.  Blocks with
different numbers are different, and none of them is an index block.
-/

namespace WhuOs
namespace Fs

open Library
open Library.Forest (missing Tree)
open Program (Runs)

variable {start state final : State} {ip : Slot} {bn ret : UInt32}

/-- A block of the inode in a slot, or an index block of it. -/
def State.nodeAt (state : State) (ip : Slot) (k : Fin nAddrs)
    (path : List ChildIndex) : UInt32 :=
  state.blockAt ((state.icache ip).data.addrs k) path

/-- How many blocks are missing on the way to a numbered block. -/
def State.lacking (state : State) (ip : Slot) (bn : Nat) : Nat :=
  missing 0 state.child ((state.icache ip).data.addrs (placeOf bn).1)
    (placeOf bn).2

/-- The blocks of an inode have one place each, free blocks read as zero, and no
buffer is locked. -/
structure OwnBlocks (state : State) (ip : Slot) : Prop where
  wellFormed : WellFormed state ip
  first : bitAt state.dataBitmap 0 = true
  zeroed : ∀ block ∈ state.freeBlocks, Zeroed (state.disk block)
  idle : state.held = []

/-- What a call does: it returns the block and creates only blocks on the way
to it. -/
structure Places (state final : State) (ip : Slot) (bn ret : UInt32) :
    Prop where
  own : OwnBlocks final ip
  result : ret = final.dataBlock ip bn.toNat
  present : ret ≠ 0
  free : final.freeBlocks =
    state.freeBlocks.drop (state.lacking ip bn.toNat)
  kept : ∀ k path, path.length ≤ addrLevel k →
    final.nodeAt ip k path = state.nodeAt ip k path ∨
      k = (placeOf bn.toNat).1 ∧ path <+: (placeOf bn.toNat).2 ∧
      state.nodeAt ip k path = 0 ∧
      (final.nodeAt ip k path).toNat ∈
        state.freeBlocks.take (state.lacking ip bn.toNat)

theorem lacking_le (state : State) (ip : Slot) (bn : Nat) :
    state.lacking ip bn ≤ 3 := by
  have level : addrLevel (placeOf bn).1 ≤ 2 := by
    generalize (placeOf bn).1 = k
    revert k
    decide
  have ways := List.length_filter_le (fun way => decide (Forest.value 0
    state.child ((state.icache ip).data.addrs (placeOf bn).1) way = 0))
    (placeOf bn).2.inits
  rw [List.length_inits, placeOf_length] at ways
  rw [State.lacking, Forest.missing_eq_length]
  omega

namespace OwnBlocks

variable (own : OwnBlocks state ip)

include own

theorem supplies {count : Nat} (enough : count ≤ state.freeBlocks.length) :
    state.Supplies count := by
  intro k few
  have inside : k < state.freeBlocks.length := by omega
  exact ⟨state.freeBlocks[k], List.getElem?_eq_getElem inside,
    own.zeroed _ (List.getElem_mem inside)⟩

/-- The call returns. -/
theorem total
    (bound : bn.toNat < maxBlocks)
    (enough : state.lacking ip bn.toNat ≤ state.freeBlocks.length) :
    ∃ ret final, (inodeLocateBlock ip bn).Runs state ret final := by
  obtain ⟨below, same, small, place⟩ := locateIn_eq (locateAddr ip)
    (Program.panic "inode_locate_block: bn too large") bound
  have supplied := own.supplies enough
  rw [State.lacking, congrArg Prod.snd place] at supplied
  rw [inodeLocateBlock_eq, same]
  generalize (placeOf bn.toNat).1 = k at small supplied ⊢
  have unlocked : state.Unlocked (addrLevel k)
      ((state.icache ip).data.addrs k) := by
    intro block locked
    rw [own.idle] at locked
    cases locked
  have room : state.held.length + addrLevel k < Buf.nBlockBuf := by
    rw [own.idle, List.length_nil, Nat.zero_add]
    exact Nat.lt_trans (addrLevel_lt k) (by decide)
  obtain ⟨⟨ret, next⟩, middle, walk⟩ := locateBlock_total (addrLevel_lt k)
    small (Forest.Sound.tree own.wellFormed k) supplied unlocked room own.first
  exact ⟨ret, _, (getInode_total state ip).bind_iff.mpr (walk.bind_iff.mpr
    (Program.runs_bind.mpr ⟨(), _, runs_modifyData.mpr rfl,
      Program.runs_pure.mpr ⟨rfl, rfl⟩⟩))⟩

section Located

variable {middle : State} {k : Fin nAddrs} {entry' : UInt32}
  {target : List ChildIndex}
  (located : Located state middle (addrLevel k)
    ((state.icache ip).data.addrs k) entry' target)
  (stored : final = middle.setData ip
    ((middle.icache ip).data.setAddr k entry'))

include located stored

omit own in
theorem addrs_stored :
    (final.icache ip).data.addrs =
      Function.update (state.icache ip).data.addrs k entry' := by
  have same : middle.icache = state.icache := by
    rw [located.cache]
    rfl
  rw [stored, setData_icache_self, Inode.setData_data, same]
  exact setAddr_addrs _ k entry'

omit own in
theorem nodeAt_stored (k' : Fin nAddrs) (path : List ChildIndex) :
    final.nodeAt ip k' path = Forest.value 0 middle.child
      (Function.update (state.icache ip).data.addrs k entry' k') path := by
  have child : final.child = middle.child := by
    rw [stored]
    rfl
  rw [State.nodeAt, State.blockAt, addrs_stored located stored, child]

omit stored in
/-- The trees grow below one address. -/
theorem grows_stored :
    Forest.Grows 0 addrLevel (state.icache ip).data.addrs state.child
      state.Marked (Function.update (state.icache ip).data.addrs k entry')
      middle.child middle.Marked :=
  Forest.Grows.atRoot located.grows fun _ differs _ bound =>
    Located.value_aside own.wellFormed located differs bound

omit own in
theorem free_stored :
    final.freeBlocks = state.freeBlocks.drop
      (missing 0 state.child ((state.icache ip).data.addrs k) target) := by
  rw [← located.free]
  refine State.freeBlocks_congr ?_
  rw [stored]
  rfl

/-- The free blocks that are left still read as zero. -/
theorem zeroed_stored :
    ∀ block ∈ final.freeBlocks, Zeroed (final.disk block) := by
  intro block free
  have disk : final.disk = middle.disk := by
    rw [stored]
    rfl
  have before : block ∈ state.freeBlocks := by
    rw [free_stored located stored] at free
    exact List.mem_of_mem_drop free
  have low := (State.mem_freeBlocks.mp before).1
  rw [State.freeBlocks_congr (congrFun disk 130)] at free
  rw [disk, located.disk block (by omega)]
  · exact own.zeroed block before
  · intro path onPath short same
    have marked := Located.marked_way own.wellFormed located onPath short
    rw [marked.diskIndex_eq] at same
    exact State.not_marked_of_mem_freeBlocks (same ▸ free) marked

/-- Bit 0 stays set. -/
theorem first_stored : bitAt final.dataBitmap 0 = true := by
  by_contra clear
  have free : 131 ∈ final.freeBlocks :=
    State.mem_freeBlocks.mpr ⟨le_rfl, by decide, Bool.eq_false_iff.mpr clear⟩
  rw [free_stored located stored] at free
  have before := (State.mem_freeBlocks.mp (List.mem_of_mem_drop free)).2.2
  rw [own.first] at before
  cases before

theorem own_stored : OwnBlocks final ip where
  wellFormed := by
    have child : final.child = middle.child := by
      rw [stored]
      rfl
    have marked : final.Marked = middle.Marked := by
      rw [stored]
      rfl
    rw [WellFormed, addrs_stored located stored, child, marked]
    exact own.wellFormed.grow (own.grows_stored located)
  first := own.first_stored located stored
  zeroed := own.zeroed_stored located stored
  idle := by
    rw [stored, located.cache]
    exact own.idle

/-- New blocks are on the way, and they were free. -/
theorem kept_stored
    {k' : Fin nAddrs} {path : List ChildIndex}
    (bound : path.length ≤ addrLevel k') :
    final.nodeAt ip k' path = state.nodeAt ip k' path ∨
      k' = k ∧ path <+: target ∧ state.nodeAt ip k' path = 0 ∧
      (final.nodeAt ip k' path).toNat ∈ state.freeBlocks.take
        (missing 0 state.child ((state.icache ip).data.addrs k) target) := by
  have marked : final.Marked = middle.Marked := by
    rw [stored]
    rfl
  rw [nodeAt_stored located stored]
  rcases (own.grows_stored located).kept k' path bound with
    same | ⟨absent, unmarked, later⟩
  · exact Or.inl same
  · by_cases other : k' = k
    · subst other
      refine Or.inr ⟨rfl, ?_, absent, ?_⟩
      · rw [Function.update_self] at later
        exact located.onTarget path bound absent later.ne_zero
      · have free := State.mem_freeBlocks_of_marked unmarked later
        rw [← List.take_append_drop (missing 0 state.child
          ((state.icache ip).data.addrs k') target) state.freeBlocks,
          List.mem_append] at free
        refine free.resolve_right fun left => ?_
        rw [← free_stored located stored] at left
        rw [← marked] at later
        exact State.not_marked_of_mem_freeBlocks left later
    · rw [Function.update_of_ne other]
      exact Or.inl (Located.value_aside own.wellFormed located other bound)

end Located

/-- What the call does if there are enough free blocks. -/
theorem places
    (enough : state.lacking ip bn.toNat ≤ state.freeBlocks.length)
    (run : (inodeLocateBlock ip bn).Runs state ret final) :
    Places state final ip bn ret := by
  obtain ⟨below, same, small, place⟩ := locateIn_eq (locateAddr ip)
    (Program.panic "inode_locate_block: bn too large")
    (inodeLocateBlock_bound run)
  have target := congrArg Prod.snd place
  have supplied := own.supplies enough
  rw [inodeLocateBlock_eq, same] at run
  rw [State.lacking, target] at supplied enough
  simp only [locateAddr, Program.runs_bind, runs_getInode, runs_modifyData,
    Program.runs_pure] at run
  obtain ⟨_, _, ⟨rfl, rfl⟩, ⟨ret', entry'⟩, middle, walk, _, finished, stored,
    rfl, rfl⟩ := run
  obtain ⟨located, found⟩ := locateBlock_located (addrLevel_lt _) walk small
    (Forest.Sound.tree own.wellFormed _) supplied
  have stored := stored.symm
  have node : finished.nodeAt ip (placeOf bn.toNat).1 (placeOf bn.toNat).2 =
      ret' := by
    rw [nodeAt_stored located stored, Function.update_self, target]
    exact found.symm
  refine ⟨own.own_stored located stored, node.symm, ?_, ?_,
    fun k path short => ?_⟩
  · exact found ▸ located.leaf enough
  · rw [free_stored located stored, State.lacking, target]
  · rw [State.lacking, target]
    exact own.kept_stored located stored short

end OwnBlocks

/-! ## Sequences of calls -/

/-- The calls of `inode_locate_block` for one inode, from a given state. -/
def locateSystem (ip : Slot) (start : State) :
    TransitionSystem State UInt32 where
  Init := (· = start)
  Step := fun before bn after =>
    ∃ ret, (inodeLocateBlock ip bn).Runs before ret after

/-- There are enough free blocks for a call. -/
def State.Enough (ip : Slot) (state : State) (bn : UInt32) : Prop :=
  state.lacking ip bn.toNat ≤ state.freeBlocks.length

/-- What a block found by a call means for the calls after it. -/
structure StaysAt (ip : Slot) (bn ret : UInt32) (later : State) : Prop where
  again : (inodeLocateBlock ip bn).Runs later ret later
  apart : ∀ bn' ret' final, bn' ≠ bn → State.Enough ip later bn' →
    (inodeLocateBlock ip bn').Runs later ret' final → ret' ≠ ret
  index : ∀ k path, path.length < addrLevel k → later.nodeAt ip k path ≠ ret

/-- A node that exists stays where it is. -/
theorem nodeAt_of_reachable
    (own : OwnBlocks start ip)
    (reachable : (locateSystem ip start).ReachableBy (State.Enough ip) state) :
    OwnBlocks state ip ∧ ∀ k path, path.length ≤ addrLevel k →
      start.nodeAt ip k path ≠ 0 →
      state.nodeAt ip k path = start.nodeAt ip k path := by
  induction reachable with
  | init same =>
      obtain rfl : _ = start := same
      exact ⟨own, fun _ _ _ _ => rfl⟩
  | step before enough taken inductionHypothesis =>
      obtain ⟨own, stays⟩ := inductionHypothesis
      obtain ⟨ret, run⟩ := taken
      have places := own.places enough run
      refine ⟨places.own, fun k path short present => ?_⟩
      have stayed := stays k path short present
      rcases places.kept k path short with same | ⟨_, _, absent, _⟩
      · exact same.trans stayed
      · rw [stayed] at absent
        exact absurd absent present

/-- Blocks with different numbers are different. -/
theorem OwnBlocks.dataBlock_ne
    (own : OwnBlocks state ip) {bn bn' : Nat} (bound : bn < maxBlocks)
    (bound' : bn' < maxBlocks) (differ : bn ≠ bn')
    (present : state.dataBlock ip bn ≠ 0) :
    state.dataBlock ip bn ≠ state.dataBlock ip bn' := by
  intro same
  have equal := own.wellFormed.unique _ _ _ _ (placeOf_length bn).le
    (placeOf_length bn').le present same
  exact differ (placeOf_inj bound bound' (Prod.ext equal.1 equal.2))

/-- A block is not an index block. -/
theorem OwnBlocks.dataBlock_ne_index
    (own : OwnBlocks state ip) {bn : Nat} {k : Fin nAddrs}
    {path : List ChildIndex} (short : path.length < addrLevel k)
    (present : state.dataBlock ip bn ≠ 0) :
    state.nodeAt ip k path ≠ state.dataBlock ip bn := by
  intro same
  obtain ⟨sameAddr, samePath⟩ := own.wellFormed.unique _ k _ path
    (placeOf_length bn).le short.le present same.symm
  have whole := placeOf_length bn
  rw [sameAddr, samePath] at whole
  omega

/-- A block that a call found stays where it is. -/
theorem Places.stays
    {later : State} (places : Places state final ip bn ret)
    (bound : bn.toNat < maxBlocks)
    (reachable : (locateSystem ip final).ReachableBy (State.Enough ip) later) :
    StaysAt ip bn ret later := by
  obtain ⟨own, stays⟩ := nodeAt_of_reachable places.own reachable
  have whole := (placeOf_length bn.toNat).le
  have isBlock : later.dataBlock ip bn.toNat = ret := by
    have present := places.present
    rw [places.result] at present ⊢
    exact stays _ _ whole present
  have present : later.dataBlock ip bn.toNat ≠ 0 := by
    rw [isBlock]
    exact places.present
  refine ⟨?_, fun bn' ret' final' differ enough run same => ?_,
    fun k path short => ?_⟩
  · have again := inodeLocateBlock_present own.wellFormed own.idle bound present
    rwa [isBlock] at again
  · have other := own.places enough run
    have kept : final'.dataBlock ip bn.toNat = ret := by
      rcases other.kept _ _ whole with equal | ⟨_, _, absent, _⟩
      · exact equal.trans isBlock
      · exact absurd absent present
    refine other.own.dataBlock_ne bound (inodeLocateBlock_bound run)
      (fun equal => differ (UInt32.toNat_inj.mp equal.symm)) ?_ ?_
    · rw [kept]
      exact places.present
    · rw [kept, ← other.result, same]
  · rw [← isBlock]
    exact own.dataBlock_ne_index short present

theorem inodeLocateBlock_panics (large : 66058 ≤ bn.toNat) :
    inodeLocateBlock ip bn =
      Program.panic "inode_locate_block: bn too large" := by
  have numbers : (10 : UInt32).toNat = 10 ∧ (512 : UInt32).toNat = 512 ∧
    (65536 : UInt32).toNat = 65536 := ⟨rfl, rfl, rfl⟩
  have notDirect : ¬bn < 10 := by
    rw [UInt32.lt_iff_toNat_lt]
    omega
  have rest := UInt32.toNat_sub_of_le _ _ (UInt32.not_lt.mp notDirect)
  have notSingle : ¬bn - 10 < 512 := by
    rw [UInt32.lt_iff_toNat_lt]
    omega
  have rest' := UInt32.toNat_sub_of_le _ _ (UInt32.not_lt.mp notSingle)
  have notDouble : ¬bn - 10 - 512 < 65536 := by
    rw [UInt32.lt_iff_toNat_lt]
    omega
  rw [inodeLocateBlock, if_neg notDirect, if_neg notSingle, if_neg notDouble]

/-- After any calls, `inode_locate_block` finds or creates the block, later
calls return it again, and it is no other block.  Beyond the last block it
panics. -/
theorem inodeLocateBlock_places
    (own : OwnBlocks start ip)
    (reachable : (locateSystem ip start).ReachableBy (State.Enough ip) state)
    (bn : UInt32) :
    (bn.toNat < 66058 → State.Enough ip state bn →
      ∃ ret final, (inodeLocateBlock ip bn).Runs state ret final ∧
        Places state final ip bn ret ∧ state.lacking ip bn.toNat ≤ 3 ∧
        ∀ later, (locateSystem ip final).ReachableBy (State.Enough ip) later →
          StaysAt ip bn ret later) ∧
    (66058 ≤ bn.toNat → inodeLocateBlock ip bn state =
      .panic "inode_locate_block: bn too large") := by
  obtain ⟨own, _⟩ := nodeAt_of_reachable own reachable
  refine ⟨fun bound enough => ?_, fun large => ?_⟩
  · obtain ⟨ret, final, run⟩ := own.total bound enough
    have places := own.places enough run
    exact ⟨ret, final, run, places, lacking_le state ip bn.toNat,
      fun _ reachable => places.stays bound reachable⟩
  · rw [inodeLocateBlock_panics large]
    rfl

theorem blankFile_own : OwnBlocks blankFile 0 where
  wellFormed := ⟨fun _ _ _ present => absurd (Forest.value_null _) present,
    fun _ _ _ _ _ _ present => absurd (Forest.value_null _) present⟩
  first := by decide
  zeroed := fun block free => by
    have low := (State.mem_freeBlocks.mp free).1
    have isZero : blankFile.disk block = zeroBlock := if_neg (by omega)
    rw [isZero]
    exact fun _ _ => rfl
  idle := rfl

/-- The last block of a file without data. -/
theorem inodeLocateBlock_places_blank :
    ∃ ret final, (inodeLocateBlock 0 66057).Runs blankFile ret final ∧
      ret ≠ 0 := by
  have free : ∀ block ∈ [132, 133, 134], block ∈ blankFile.freeBlocks := by
    intro block member
    apply State.mem_freeBlocks.mpr
    revert block
    decide
  have few : 3 ≤ blankFile.freeBlocks.length :=
    (List.subperm_of_subset (by decide) free).length_le
  have enough : State.Enough 0 blankFile 66057 :=
    le_trans (lacking_le blankFile 0 _) few
  obtain ⟨ret, final, run, places, _⟩ := (inodeLocateBlock_places blankFile_own
    (.init rfl) 66057).1 (by decide) enough
  exact ⟨ret, final, run, places.present⟩

end Fs
end WhuOs
