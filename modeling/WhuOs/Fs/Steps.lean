import WhuOs.Fs.Frame

/-!
# Steps that change an inode

Storing the fields of an inode, writing its blocks, giving it a block, freeing
its blocks and creating it.  Each keeps the blocks sound and leaves the other
inodes alone.
-/

namespace WhuOs
namespace Fs

open Library
open Program (Runs)

variable {state middle final : State} {opened : Slot → Nat}
variable {base : UInt16 → Nat} {held : List Slot} {ip : Slot}

/-- The inode of a slot is the one that changes. -/
abbrev ChangesSlot (state : State) (ip : Slot) (inodeNum : UInt16) : Prop :=
  inodeNum = (state.icache ip).inodeNum

theorem storeData_icache_self (data : Dinode) :
    (state.storeData ip data).icache ip = (state.icache ip).setData data :=
  setData_icache_self ip data

theorem storeData_icache_of_ne
    {other : Slot} (differs : other ≠ ip) (data : Dinode) :
    (state.storeData ip data).icache other = state.icache other :=
  setData_icache_of_ne differs data

namespace Live

/-- Writing blocks of an inode and taking blocks for it. -/
theorem transferred
    (live : Live base opened held state)
    (moved : Transferred state final ip) :
    Live base opened held final ∧
      Frame opened (ChangesSlot state ip) state final := by
  have refs : final.refs = state.refs := by
    funext slot
    unfold State.refs
    by_cases same : slot = ip
    · obtain ⟨addrs, same'⟩ := moved.slot
      rw [same, same']
      rfl
    · rw [moved.slots slot same]
  have bits : final.inodeBitmap = state.inodeBitmap :=
    moved.table 1 le_rfl (by decide)
  have kept : ∀ number, bitAt state.inodeBitmap number = true →
      bitAt final.inodeBitmap number = true := by
    intro number set
    rwa [bits]
  exact ⟨live.congr moved.sound refs kept moved.held,
    fun inodeNum small other => Kept.of_transferred moved small other,
    fun slot _ => numbers_of_refs refs slot, kept⟩

section Slot

variable (live : Live base opened held state)
  (used : (state.icache ip).inodeNum ≠ inodeNumUnused)
  (valid : (state.icache ip).valid = true)

include live used valid

/-- Changing fields in the cache that are not stored. -/
theorem setData
    {data : Dinode}
    (backs : Backs (state.dinodeAt (state.icache ip).inodeNum) data)
    (fewer : ∀ k, data.addrs k = (state.icache ip).data.addrs k ∨
      data.addrs k = 0) :
    Live base opened held (state.setData ip data) ∧
      Frame opened (ChangesSlot state ip) state (state.setData ip data) := by
  have sameNum : ((state.icache ip).setData data).inodeNum =
      (state.icache ip).inodeNum := rfl
  have sound : Sound (state.setData ip data) := by
    refine live.sound.setInode used sameNum (fun _ => backs) fun k => ?_
    rw [Inode.setData_valid, if_pos valid, locked_data_of_valid valid]
    exact fewer k
  have refs : (state.setData ip data).refs = state.refs :=
    refs_setData ip data
  refine ⟨live.congr sound refs (fun _ set => set) rfl,
    fun inodeNum small other => ?_, fun slot _ => numbers_of_refs refs slot,
    fun _ set => set⟩
  have current : (state.setData ip data).dinodeOf inodeNum =
      state.dinodeOf inodeNum := by
    rw [dinodeOf_setData live.sound.unique used valid,
      Function.update_of_ne other]
  exact Kept.of_table live.sound (fun _ _ => rfl) rfl (current ▸ Backs.refl _)
    fun _ => current

/-- Storing fields with no new block numbers. -/
theorem store
    {data : Dinode}
    (fewer : ∀ k, data.addrs k = (state.icache ip).data.addrs k ∨
      data.addrs k = 0) :
    Live base opened held (state.storeData ip data) ∧
      Frame opened (ChangesSlot state ip) state
        (state.storeData ip data) := by
  have sound := live.sound.store used valid fewer
  have refs : (state.storeData ip data).refs = state.refs := by
    show (state.setData ip data).refs = _
    exact refs_setData ip data
  have kept : ∀ number, bitAt state.inodeBitmap number = true →
      bitAt (state.storeData ip data).inodeBitmap number = true := by
    intro number set
    unfold State.inodeBitmap
    rwa [live.sound.storeData_disk used (Or.inl (by decide))]
  refine ⟨live.congr sound refs kept rfl, fun inodeNum small other => ?_,
    fun slot _ => numbers_of_refs refs slot, kept⟩
  have current : (state.storeData ip data).dinodeOf inodeNum =
      state.dinodeOf inodeNum := by
    rw [live.sound.dinodeOf_storeData used valid, Function.update_of_ne other]
  exact Kept.of_table live.sound
    (fun index high => live.sound.storeData_disk used (Or.inr (by omega)))
    (dinodeAt_storeDinode_of_ne other _) (current ▸ Backs.refl _)
    fun _ => current

/-- Storing fields with the same size and block numbers. -/
theorem storeKeeps
    {data : Dinode} (type : data.type = (state.icache ip).data.type)
    (size : data.size = (state.icache ip).data.size)
    (addrs : data.addrs = (state.icache ip).data.addrs) :
    KeepsData state (state.storeData ip data) (state.icache ip).inodeNum := by
  have before := dinodeOf_valid live.sound.unique used valid
  have after : (state.storeData ip data).dinodeOf (state.icache ip).inodeNum =
      data := by
    rw [live.sound.dinodeOf_storeData used valid, Function.update_self]
  refine ⟨by rw [after, before, type], by rw [after, before, size],
    by rw [after, before, addrs], fun k path bound =>
      live.sound.sameBlocks (fun index high =>
        live.sound.storeData_disk used (Or.inr (by omega))) bound ?_⟩
  unfold State.root
  rw [after, before, addrs]

/-- The block of a directory. -/
theorem place_first :
    state.place ((state.icache ip).inodeNum, 0) [] =
      (state.icache ip).data.addrs 0 :=
  live.sound.root_eq used valid 0

/-- Writing the block of a directory. -/
theorem writeFirst (data : Block) :
    Transferred state (state.setDisk
      (diskIndex ((state.icache ip).data.addrs 0)) data) ip := by
  rw [← live.place_first used valid]
  exact live.sound.writeLeaf_transferred 0 rfl data

end Slot

/-! ## Entries -/

/-- Fields that differ from the current ones in the size only. -/
theorem backs_setSize
    (live : Live base opened held state)
    (used : (state.icache ip).inodeNum ≠ inodeNumUnused)
    (valid : (state.icache ip).valid = true) (size : UInt32) :
    Backs (state.dinodeAt (state.icache ip).inodeNum)
      ((state.icache ip).data.setSize size) := by
  have backs := live.sound.backed ip used valid
  exact ⟨backs.type, backs.major, backs.minor, backs.nlink, backs.addrs⟩

/-- Adding an entry to a directory. -/
theorem addEntry
    (live : Live base opened held state)
    (used : (state.icache ip).inodeNum ≠ inodeNumUnused)
    (valid : (state.icache ip).valid = true) (entry : EntryIndex)
    (inodeNum : UInt16) (name : CString) :
    Live base opened held (state.addEntry ip entry inodeNum name) ∧
      Frame opened (ChangesSlot state ip) state
        (state.addEntry ip entry inodeNum name) := by
  obtain ⟨live', frame⟩ := live.transferred (live.writeFirst used valid
    (storeEntry (state.dirData ip) entry inodeNum name))
  obtain ⟨live'', frame'⟩ := live'.setData used valid
    (live'.backs_setSize used valid (UInt32.ofNat (direntSize * entry) + 32))
    fun _ => Or.inl rfl
  exact ⟨live'', frame.trans frame'⟩

end Live

/-! ## Creating an inode -/

theorem setInode_storeDinode
    (inode : Inode) (inodeNum : UInt16) (dinode : Dinode) :
    (state.setInode ip inode).storeDinode inodeNum dinode =
      (state.storeDinode inodeNum dinode).setInode ip inode :=
  rfl

/-- What `inode_create` does with a number it takes. -/
structure Creates (state final : State) (ip : Slot) (inodeNum : UInt16)
    (dinode : Dinode) : Prop where
  first : firstClear state.inodeBitmap = some inodeNum.toNat
  notRoot : inodeNum ≠ inodeRoot
  slot : ∃ ref, final.icache ip = ⟨dinode, inodeNum, ref, true, false⟩
  stored : final.dinodeAt inodeNum = dinode
  marked : bitAt final.inodeBitmap inodeNum.toNat = true
  fresh : (state.icache ip).ref = 0
  slots : ∀ slot, slot ≠ ip → final.icache slot = state.icache slot
  disk : ∀ index, 130 ≤ index → final.disk index = state.disk index

/-- Marking a number in the inode bitmap. -/
theorem Live.markInode
    (live : Live base opened held state) (number : Nat) :
    Live base opened held
        (state.setDisk 1 (setBit state.inodeBitmap number)) ∧
      Quiet opened state
        (state.setDisk 1 (setBit state.inodeBitmap number)) := by
  have table : SameTable state
      (state.setDisk 1 (setBit state.inodeBitmap number)) :=
    fun index low _ => Function.update_of_ne (by omega) _ _
  have sound : Sound (state.setDisk 1 (setBit state.inodeBitmap number)) :=
    live.sound.writeData rfl table (fun root path short present =>
      Function.update_of_ne ((live.sound.marked_place (Nat.le_of_lt short)
        present).diskIndex_ne (by decide)) _ _)
      fun root path bound present => live.sound.marked_place bound present
  have kept : ∀ other, bitAt state.inodeBitmap other = true →
      bitAt (state.setDisk 1
        (setBit state.inodeBitmap number)).inodeBitmap other = true := by
    intro other set
    rw [inodeBitmap_setDisk, bitAt_setBit, set, Bool.or_true]
  refine ⟨live.congr sound rfl kept rfl, fun inodeNum small _ => ?_,
    fun _ _ => rfl, kept⟩
  have current := table.dinodeOf rfl small
  exact Kept.of_table live.sound
    (fun index high => Function.update_of_ne (by omega) _ _)
    (table.dinodeAt small) (current ▸ Backs.refl _) fun _ => current

theorem Live.create
    {type major minor : UInt16} (live : Live base opened held state)
    (few : held.length ≤ nInode)
    (fits : ∀ number, firstClear state.inodeBitmap = some number →
      number < maxInodes)
    (run : (inodeCreate type major minor).Runs state (some ip) final) :
    ∃ inodeNum : UInt16,
      Creates state final ip inodeNum (newDinode type major minor) ∧
      Live base opened (ip :: held) final ∧
      Frame opened (· = inodeNum) state final := by
  rcases inodeCreate_runs run with ⟨_, absent, _⟩ |
    ⟨number, inodeNum, ip', middle, first, notZero, rfl, same, alloc,
      referenced, unlocked, stored⟩
  · cases absent
  obtain rfl := Option.some.inj same
  have small : inodeNum.toNat < maxInodes := fits _ first
  obtain ⟨live₁, quiet₁⟩ := live.markInode inodeNum.toNat
  have marked : bitAt (state.setDisk 1 (setBit state.inodeBitmap
      inodeNum.toNat)).inodeBitmap inodeNum.toNat = true := by
    rw [inodeBitmap_setDisk, bitAt_setBit]
    simp
  obtain ⟨live₂, quiet₂, number, sameDisk, slots⟩ :=
    live₁.alloc few small marked alloc
  have used : (middle.icache ip).inodeNum ≠ inodeNumUnused :=
    number.symm ▸ ne_unused_of_small small
  obtain ⟨live₃, quiet₃⟩ := live₂.setSame (middle.locked ip) used rfl rfl rfl
  have slot₃ : (middle.setInode ip (middle.locked ip)).icache ip =
      middle.locked ip := by simp
  have number₃ : (middle.locked ip).inodeNum = inodeNum := number
  have fewer : ∀ k, (newDinode type major minor).addrs k =
      ((middle.setInode ip (middle.locked ip)).icache ip).data.addrs k ∨
      (newDinode type major minor).addrs k = 0 := fun _ => Or.inr rfl
  obtain ⟨live₄, frame₄⟩ := live₃.store (by rwa [slot₃]) (by rw [slot₃]; rfl)
    fewer
  have slot₄ : ((middle.setInode ip (middle.locked ip)).storeData ip
      (newDinode type major minor)).icache ip =
      (middle.locked ip).setData (newDinode type major minor) := by
    unfold State.storeData
    rw [storeDinode_icache, setData_icache_self, slot₃]
  have used₄ : ((middle.locked ip).setData
      (newDinode type major minor)).inodeNum ≠ inodeNumUnused := used
  obtain ⟨live₅, quiet₅⟩ := live₄.setSame (((middle.locked ip).setData
      (newDinode type major minor)).setSlk false)
    (by rw [slot₄]; exact used₄) (by rw [slot₄]; rfl) (by rw [slot₄]; rfl)
    (by rw [locked_data_of_valid (by rw [slot₄]; rfl), slot₄]; rfl)
  have reached : final = ((middle.setInode ip (middle.locked ip)).storeData ip
      (newDinode type major minor)).setInode ip
        (((middle.locked ip).setData
          (newDinode type major minor)).setSlk false) := by
    unfold State.storeData State.setData
    rw [slot₃, number₃, State.setInode_setInode, stored]
    have slot : ((middle.locked ip).setData
        (newDinode type major minor)).setSlk false =
        ⟨newDinode type major minor, inodeNum, (middle.icache ip).ref, true,
          false⟩ := by
      rw [← number]
      rfl
    rw [slot, setInode_storeDinode, setInode_storeDinode,
      State.setInode_setInode]
  rw [← reached] at live₅ quiet₅
  have slotFinal : final.icache ip = ⟨newDinode type major minor, inodeNum,
      (middle.icache ip).ref, true, false⟩ := by
    rw [stored, storeDinode_icache, State.setInode_icache,
      Function.update_self]
  have frame₄ : Frame opened (· = inodeNum)
      (middle.setInode ip (middle.locked ip)) _ :=
    frame₄.weaken fun other same => by
      rw [same, slot₃]
      exact number₃
  have after := quiet₂.frame.trans
    (quiet₃.frame.trans (frame₄.trans quiet₅.frame))
  have clear := (firstClear_eq_some first).2.1
  refine ⟨inodeNum, ⟨first, ?_, ⟨_, slotFinal⟩, ?_, after.bits _ marked, ?_,
    ?_, ?_⟩, live₅, quiet₁.frame.trans after⟩
  · rintro rfl
    exact notZero rfl
  · rw [stored]
    exact dinodeAt_storeDinode_self _ _
  · rcases inodeAlloc_runs alloc with ⟨cached, _⟩ | ⟨_, unreferenced, _⟩
    · have cached : (state.icache ip).inodeNum = inodeNum := cached
      have set := live.cached ip (by rw [cached]; exact ne_unused_of_small small)
      rw [cached, clear] at set
      cases set
    · exact unreferenced
  · intro slot differs
    rw [stored, storeDinode_icache, State.setInode_icache,
      Function.update_of_ne differs]
    rcases inodeAlloc_runs alloc with ⟨_, rfl⟩ | ⟨_, _, rfl⟩
    · exact Function.update_of_ne differs _ _
    · exact Function.update_of_ne differs _ _
  · intro index high
    rw [stored, storeDinode_disk_of_ne small (Or.inr high)]
    show middle.disk index = _
    rw [sameDisk]
    exact Function.update_of_ne (by omega) _ _

/-! ## Taking and freeing blocks -/

/-- What a directory without a block gets from `bitmap_alloc_block`. -/
structure TakesBlock (state final : State) (ip : Slot) (block : UInt32) :
    Prop where
  next : state.freeBlocks.head? = some block.toNat
  slot : final.icache = (state.setData ip
    (((state.icache ip).data.setAddr 0 block).setSize 0)).icache
  disk : ∀ index, index ≠ 130 → final.disk index = state.disk index
  marked : final.Marked block

theorem Live.takeBlock
    {block : UInt32} (live : Live base opened held state)
    (used : (state.icache ip).inodeNum ≠ inodeNumUnused)
    (valid : (state.icache ip).valid = true)
    (empty : (state.icache ip).data.addrs 0 = 0) (present : block ≠ 0)
    (run : bitmapAllocBlock.Runs state block middle)
    (stored : final = middle.setData ip
      (((middle.icache ip).data.setAddr 0 block).setSize 0)) :
    TakesBlock state final ip block ∧ Live base opened held final ∧
      Frame opened (ChangesSlot state ip) state final := by
  rcases bitmapAllocBlock_takes run with ⟨_, rfl, _⟩ |
    ⟨taken, _, marked, _, data, rfl⟩
  · exact absurd rfl present
  have alloc : (blockOfEntry ((state.icache ip).data.addrs 0)).Runs state
      block (state.setDisk 130 data) := by
    have asks : blockOfEntry ((state.icache ip).data.addrs 0) =
        bitmapAllocBlock := if_pos empty
    rw [asks]
    exact run
  have locate : (locateAddr ip 0 0 (addrLevel 0)).Runs state block
      ((state.setDisk 130 data).setData ip
        ((state.icache ip).data.setAddr 0 block)) := by
    have level : addrLevel 0 = 0 := rfl
    simp only [locateAddr, locateBlock, level, Program.runs_bind,
      runs_getInode, runs_modifyData, Program.runs_pure]
    exact ⟨state.icache ip, state, ⟨rfl, rfl⟩, (block, block),
      state.setDisk 130 data, ⟨block, state.setDisk 130 data, alloc, rfl, rfl⟩,
      (), _, rfl, rfl, rfl⟩
  have few : state.missingTo (state.icache ip).inodeNum 0 ≤ 1 := by
    show (if state.root ((state.icache ip).inodeNum, 0) = 0 then 1 else 0) ≤ 1
    split
    · exact le_rfl
    · exact Nat.zero_le 1
  have supplied : state.Supplies
      (state.missingTo (state.icache ip).inodeNum 0) :=
    fun k more => by omega
  obtain ⟨extended, _⟩ := locateAddr_extended live.sound used valid
    (fun positive => absurd positive (by decide)) rfl supplied locate
  obtain ⟨live₁, frame₁⟩ :=
    live.transferred (extended.transferred live.sound)
  have slot₁ : ((state.setDisk 130 data).setData ip
      ((state.icache ip).data.setAddr 0 block)).icache ip =
      (state.icache ip).setData ((state.icache ip).data.setAddr 0 block) :=
    setData_icache_self ip _
  have used₁ : (((state.setDisk 130 data).setData ip
      ((state.icache ip).data.setAddr 0 block)).icache ip).inodeNum ≠
      inodeNumUnused := by
    rw [slot₁]
    exact used
  have valid₁ : (((state.setDisk 130 data).setData ip
      ((state.icache ip).data.setAddr 0 block)).icache ip).valid = true := by
    rw [slot₁]
    exact valid
  obtain ⟨live₂, frame₂⟩ := live₁.setData used₁ valid₁
    (live₁.backs_setSize used₁ valid₁ 0) fun _ => Or.inl rfl
  have reached : final = ((state.setDisk 130 data).setData ip
      ((state.icache ip).data.setAddr 0 block)).setData ip
        ((((state.setDisk 130 data).setData ip
          ((state.icache ip).data.setAddr 0 block)).icache ip).data.setSize
            0) := by
    rw [slot₁, stored]
    unfold State.setData
    rw [State.setInode_setInode]
    simp only [State.setInode_icache, Function.update_self]
    rfl
  rw [← reached] at live₂ frame₂
  refine ⟨⟨?_, ?_, ?_, ?_⟩, live₂, frame₁.trans (frame₂.weaken ?_)⟩
  · rw [taken]
    rfl
  · rw [stored]
    rfl
  · intro index differs
    rw [stored]
    exact Function.update_of_ne differs _ _
  · rw [stored]
    exact marked
  · intro inodeNum same
    unfold ChangesSlot at same ⊢
    rwa [slot₁] at same

/-- The blocks of a filled slot. -/
theorem Sound.wellFormed
    (sound : Sound state)
    (used : (state.icache ip).inodeNum ≠ inodeNumUnused)
    (valid : (state.icache ip).valid = true) : WellFormed state ip := by
  have below : ∀ k path,
      Forest.value 0 state.child ((state.icache ip).data.addrs k) path =
        state.place ((state.icache ip).inodeNum, k) path := by
    intro k path
    rw [← sound.root_eq used valid]
  constructor
  · intro k path bound present
    rw [below] at present ⊢
    have inside : path.length ≤
        rootHeight ((state.icache ip).inodeNum, k) := bound
    exact sound.marked_place inside present
  · intro k k' path path' bound bound' present same
    rw [below, below] at same
    rw [below] at present
    have unique := sound.forest.unique ((state.icache ip).inodeNum, k)
      ((state.icache ip).inodeNum, k') path path' bound bound' present same
    exact ⟨(Prod.mk.inj unique.1).2, unique.2⟩

/-- The state after the blocks of an inode were freed and its fields stored. -/
def State.release (state : State) (ip : Slot) (dinode : Dinode) : State :=
  (state.storeData ip dinode).setDisk 130 (clearBlocks state.dataBitmap
    (visitedBlocks state (state.icache ip).data (List.finRange nAddrs)))

/-- The inode table and the data bitmap are apart. -/
theorem setDisk_storeDinode
    {inodeNum : UInt16} (small : inodeNum.toNat < maxInodes) (data : Block)
    (dinode : Dinode) :
    (state.setDisk 130 data).storeDinode inodeNum dinode =
      (state.storeDinode inodeNum dinode).setDisk 130 data := by
  have size : maxInodes = 2048 := rfl
  have apart : diskIndex (inodeBlock inodeNum) ≠ 130 := by
    rw [diskIndex_inodeBlock]
    omega
  unfold State.storeDinode State.setDisk
  simp only [Function.update_of_ne apart]
  rw [Function.update_comm apart.symm]

/-- An inode without blocks. -/
def Dinode.emptied (dinode : Dinode) (nlink : UInt16) : Dinode :=
  ((dinode.setNlink nlink).clearAddrs (List.finRange nAddrs)).setSize 0

theorem clearAddrs_nlink (dinode : Dinode) (ks : List (Fin nAddrs)) :
    (dinode.clearAddrs ks).nlink = dinode.nlink ∧
      (dinode.clearAddrs ks).type = dinode.type := by
  unfold Dinode.clearAddrs
  induction ks generalizing dinode with
  | nil => exact ⟨rfl, rfl⟩
  | cons first rest inductionHypothesis =>
      rw [List.foldl_cons]
      exact inductionHypothesis (dinode.setAddr first 0)

section Emptied

variable (dinode : Dinode) (nlink : UInt16)

theorem Dinode.emptied_addrs (k : Fin nAddrs) :
    (dinode.emptied nlink).addrs k = 0 :=
  (clearAddrs_addrs (dinode.setNlink nlink) (List.finRange nAddrs) k).trans
    (if_pos (List.mem_finRange k))

theorem Dinode.emptied_nlink : (dinode.emptied nlink).nlink = nlink :=
  (clearAddrs_nlink (dinode.setNlink nlink) (List.finRange nAddrs)).1

theorem Dinode.emptied_type : (dinode.emptied nlink).type = dinode.type :=
  (clearAddrs_nlink (dinode.setNlink nlink) (List.finRange nAddrs)).2

theorem Dinode.emptied_size : (dinode.emptied nlink).size = 0 := rfl

end Emptied

/-- The end of `path_unlink` for an inode without links. -/
theorem release_runs
    {nlink : UInt16} {result result' result'' : Unit} {freed : State}
    (small : (state.icache ip).inodeNum.toNat < maxInodes)
    (wellFormed : WellFormed state ip) (idle : state.held = [])
    (change : (modifyData ip fun dinode => dinode.setNlink nlink).Runs state
      result middle)
    (free : (inodeFreeData ip).Runs middle result' freed)
    (write : (inodeRw ip true).Runs freed result'' final) :
    final = state.release ip ((state.icache ip).data.emptied nlink) := by
  rw [runs_modifyData] at change
  subst change
  have slot : (state.setData ip ((state.icache ip).data.setNlink
      nlink)).icache ip = (state.icache ip).setData
        ((state.icache ip).data.setNlink nlink) := setData_icache_self ip _
  have locked : ((state.setData ip ((state.icache ip).data.setNlink
      nlink)).icache ip).slk = true := by
    by_contra unlocked
    exact inodeFreeData_not_runs (Bool.eq_false_iff.mpr unlocked) free
  have wellFormed' : WellFormed (state.setData ip
      ((state.icache ip).data.setNlink nlink)) ip := by
    unfold WellFormed
    rw [slot]
    exact wellFormed
  obtain ⟨_, rfl⟩ := free.deterministic
    (inodeFreeData_clears locked wellFormed' idle)
  obtain ⟨_, rfl⟩ := inodeRw_write_stores write
  have sameBlocks : visitedBlocks
      (state.setData ip ((state.icache ip).data.setNlink nlink))
      ((state.icache ip).data.setNlink nlink) (List.finRange nAddrs) =
      visitedBlocks state (state.icache ip).data (List.finRange nAddrs) := rfl
  rw [freeing_icache, slot, Inode.setData_data, sameBlocks]
  show _ = state.release ip ((((state.icache ip).data.setNlink
    nlink).clearAddrs (List.finRange nAddrs)).setSize 0)
  generalize (((state.icache ip).data.setNlink nlink).clearAddrs
    (List.finRange nAddrs)).setSize 0 = dinode
  unfold State.release
  generalize visitedBlocks state (state.icache ip).data
    (List.finRange nAddrs) = blocks
  show (((state.setDisk 130 (clearBlocks state.dataBitmap blocks)).setInode ip
    ((state.icache ip).setData ((state.icache ip).data.setNlink
      nlink))).setInode ip (((state.setData ip ((state.icache ip).data.setNlink
        nlink)).icache ip).setData dinode)).storeDinode
          (state.icache ip).inodeNum dinode = _
  rw [State.setInode_setInode, setInode_storeDinode,
    setDisk_storeDinode small, slot]
  rfl

/-- A block in use after the fields were stored is not freed. -/
theorem Live.not_visited
    {dinode : Dinode} (live : Live base opened held state)
    (used : (state.icache ip).inodeNum ≠ inodeNumUnused)
    (valid : (state.icache ip).valid = true)
    (zero : ∀ k, dinode.addrs k = 0) {root : Root} {path : List ChildIndex}
    (bound : path.length ≤ rootHeight root)
    (present : (state.storeData ip dinode).place root path ≠ 0) :
    (state.storeData ip dinode).place root path = state.place root path ∧
      state.place root path ∉ visitedBlocks state (state.icache ip).data
        (List.finRange nAddrs) := by
  obtain ⟨live₁, frame₁⟩ := live.store used valid fun k => Or.inr (zero k)
  obtain ⟨inodeNum, k⟩ := root
  have rooted : (state.storeData ip dinode).root (inodeNum, k) ≠ 0 := by
    intro absent
    apply present
    unfold State.place State.blockAt
    rw [absent, Forest.value_null]
  have small : inodeNum.toNat < maxInodes := by
    by_contra large
    exact rooted (if_neg large)
  have other : inodeNum ≠ (state.icache ip).inodeNum := by
    rintro rfl
    apply rooted
    unfold State.root
    rw [if_pos small, live.sound.dinodeOf_storeData used valid,
      Function.update_self]
    exact zero k
  have kept := frame₁.kept inodeNum small other
  have sameRoot := (root_of_fields kept.fields k).resolve_right rooted
  have same := (kept.blocks k path bound sameRoot).1
  refine ⟨same, fun visited => ?_⟩
  rw [same] at present
  obtain ⟨_, _, _, _, k', path', bound', owned⟩ :=
    owns_of_visited present visited
  rw [← live.sound.root_eq used valid] at owned
  have unique := live.sound.forest.unique (inodeNum, k)
    ((state.icache ip).inodeNum, k') path path' bound bound' present owned.symm
  exact other (Prod.mk.inj unique.1).1

theorem release_disk
    (dinode : Dinode) {index : Nat} (differs : index ≠ 130) :
    (state.release ip dinode).disk index =
      (state.storeData ip dinode).disk index :=
  Function.update_of_ne differs _ _

theorem release_table (ip : Slot) (dinode : Dinode) :
    SameTable (state.storeData ip dinode) (state.release ip dinode) :=
  fun _ _ high => release_disk dinode (Nat.ne_of_lt high)

theorem Live.release
    {dinode : Dinode} (live : Live base opened held state)
    (used : (state.icache ip).inodeNum ≠ inodeNumUnused)
    (valid : (state.icache ip).valid = true)
    (zero : ∀ k, dinode.addrs k = 0) :
    Live base opened held (state.release ip dinode) ∧
      Frame opened (ChangesSlot state ip) state (state.release ip dinode) := by
  obtain ⟨live₁, frame₁⟩ := live.store used valid fun k => Or.inr (zero k)
  have table : SameTable (state.storeData ip dinode)
      (state.release ip dinode) := release_table ip dinode
  have sound : Sound (state.release ip dinode) := by
    refine live₁.sound.writeData rfl table (fun root path short present =>
      release_disk _ ((live₁.sound.marked_place (Nat.le_of_lt short)
        present).diskIndex_ne (by decide))) fun root path bound present => ?_
    obtain ⟨low, high, _⟩ := live₁.sound.marked_place bound present
    obtain ⟨same, notVisited⟩ :=
      live.not_visited used valid zero bound present
    rw [same] at low high present ⊢
    have marked := live.sound.marked_place bound present
    refine ⟨low, high, ?_⟩
    have bitmap : (state.release ip dinode).dataBitmap =
        clearBlocks state.dataBitmap (visitedBlocks state
          (state.icache ip).data (List.finRange nAddrs)) :=
      dataBitmap_setDisk _
    rw [bitmap, bitAt_clearBlocks
      (visited_behind (live.sound.wellFormed used valid))]
    refine ⟨marked.2.2, fun ⟨_, block, visited, number⟩ => notVisited ?_⟩
    have equal : block = state.place root path :=
      UInt32.toNat_inj.mp (by omega)
    rwa [← equal]
  have refs : (state.release ip dinode).refs =
      (state.storeData ip dinode).refs := rfl
  have bits : (state.release ip dinode).inodeBitmap =
      (state.storeData ip dinode).inodeBitmap :=
    release_disk dinode (by decide)
  have live₂ : Live base opened held (state.release ip dinode) :=
    live₁.congr sound refs (fun number set => by rwa [bits]) rfl
  have quiet : Quiet opened (state.storeData ip dinode)
      (state.release ip dinode) := by
    refine ⟨fun inodeNum small _ => ?_, fun slot _ => rfl,
      fun number set => by rwa [bits]⟩
    have current := table.dinodeOf rfl small
    exact Kept.of_table live₁.sound
      (fun index high => release_disk dinode (by omega))
      (table.dinodeAt small) (current ▸ Backs.refl _) fun _ => current
  exact ⟨live₂, frame₁.trans quiet.frame⟩

section Release

variable {dinode : Dinode} (live : Live base opened held state)
  (used : (state.icache ip).inodeNum ≠ inodeNumUnused)
  (valid : (state.icache ip).valid = true)

include live used

theorem Live.release_dinodeAt :
    (state.release ip dinode).dinodeAt (state.icache ip).inodeNum = dinode := by
  rw [(release_table ip dinode).dinodeAt (live.small used)]
  exact dinodeAt_storeDinode_self _ _

include valid

theorem Live.release_dinodeOf (zero : ∀ k, dinode.addrs k = 0) :
    (state.release ip dinode).dinodeOf (state.icache ip).inodeNum = dinode := by
  have slot : (state.release ip dinode).icache ip =
      (state.icache ip).setData dinode := storeData_icache_self dinode
  have sound := (live.release used valid zero).1.sound
  have after : (state.release ip dinode).dinodeOf
      ((state.release ip dinode).icache ip).inodeNum =
      ((state.release ip dinode).icache ip).data :=
    dinodeOf_valid sound.unique (by
      rw [slot]
      exact used) (by
      rw [slot]
      exact valid)
  rw [slot] at after
  exact after

/-- An inode without size and blocks has nothing to lose. -/
theorem Live.release_keeps
    (zero : ∀ k, dinode.addrs k = 0)
    (type : dinode.type = (state.icache ip).data.type)
    (size : dinode.size = (state.icache ip).data.size)
    (empty : ∀ k, (state.icache ip).data.addrs k = 0) :
    KeepsData state (state.release ip dinode) (state.icache ip).inodeNum := by
  have before := dinodeOf_valid live.sound.unique used valid
  have after := live.release_dinodeOf used valid zero
  have sameAddrs : dinode.addrs = (state.icache ip).data.addrs := by
    funext k
    rw [zero, empty]
  have absent : ∀ k path, state.place ((state.icache ip).inodeNum, k) path =
      0 := by
    intro k path
    unfold State.place State.blockAt
    rw [live.sound.root_eq used valid, empty, Forest.value_null]
  refine ⟨by rw [after, before, type], by rw [after, before, size],
    by rw [after, before, sameAddrs], fun k path _ =>
      ⟨?_, fun present => absurd (absent k path) present⟩⟩
  rw [absent]
  unfold State.place State.blockAt State.root
  rw [after, zero, ite_self, Forest.value_null]

end Release

end Fs
end WhuOs
