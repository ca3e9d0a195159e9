import WhuOs.Fs.Ranges

/-!
# What reading changes

Reading searches its blocks with the function that writing uses.  So a read of a
range with a block that is missing takes a block, and stores it in the inode.
-/

namespace WhuOs
namespace Fs

open Library
open Program (Runs)

variable {state final middle : State}

/-! ## Reading -/

/-- The searches for blocks, one after the other, meet no empty entry before one
of them stops or its block cannot be read. -/
def State.HoleFree (state : State) (ip : Slot) : List Nat → Prop
  | [] => True
  | bn :: rest =>
      match state.meetsAt ip (UInt32.ofNat bn) with
      | .found block => diskIndex block < totalBlocks → state.HoleFree ip rest
      | .hole => False
      | .stops => True

theorem State.holeFree_found
    {ip : Slot} {bn : Nat} {rest : List Nat} {block : UInt32}
    (found : state.meetsAt ip (UInt32.ofNat bn) = .found block)
    (inside : diskIndex block < totalBlocks) :
    state.HoleFree ip (bn :: rest) ↔ state.HoleFree ip rest := by
  rw [State.HoleFree, found]
  exact imp_iff_right inside

/-- In an inode whose blocks form trees, a range is free of holes if all of its
blocks exist. -/
theorem WellFormed.holeFree_iff
    {ip : Slot} (wellFormed : WellFormed state ip) {blocks : List Nat}
    (bound : ∀ bn ∈ blocks, bn < maxBlocks) :
    state.HoleFree ip blocks ↔ ∀ bn ∈ blocks, state.dataBlock ip bn ≠ 0 := by
  induction blocks with
  | nil => exact ⟨fun _ _ none => absurd none List.not_mem_nil, fun _ => trivial⟩
  | cons bn rest inductionHypothesis =>
      have small := bound bn List.mem_cons_self
      have isBn : (UInt32.ofNat bn).toNat = bn := by
        rw [UInt32.toNat_ofNat']
        exact Nat.mod_eq_of_lt (Nat.lt_trans small (by decide))
      have meets := @WellFormed.meetsAt_eq _ _ (UInt32.ofNat bn) wellFormed
        (by rw [isBn]; exact small)
      rw [isBn] at meets
      rw [List.forall_mem_cons]
      by_cases missing : state.dataBlock ip bn = 0
      · rw [if_pos missing] at meets
        rw [State.HoleFree, meets]
        exact ⟨False.elim, fun present => absurd missing present.1⟩
      · rw [if_neg missing] at meets
        have marked : state.Marked (state.dataBlock ip bn) :=
          wellFormed.marked _ _ (placeOf_length _).le missing
        have inside : diskIndex (state.dataBlock ip bn) < totalBlocks := by
          rw [marked.diskIndex_eq]
          exact marked.2.1
        rw [State.holeFree_found meets inside, inductionHypothesis
          fun other member => bound other (List.mem_cons_of_mem _ member)]
        exact (and_iff_right missing).symm

section Loop

variable {ip : Slot} {offset len total : UInt32} {dst : List UInt8}
  {fuel : Nat} (idle : state.held = [])
  (noWrap : offset.toNat + (len.toNat - total.toNat) < 2 ^ 32)

include noWrap

/-- The blocks of the next piece and of the pieces after it. -/
theorem blocksOf_next (more : total < len) :
    ∃ rest, blocksOf offset.toNat (len.toNat - total.toNat) =
        offset.toNat / 1024 :: rest ∧
      blocksOf (offset + pieceLength offset len total).toNat
        (len.toNat - (total + pieceLength offset len total).toNat) = rest ∧
      UInt32.ofNat (offset.toNat / 1024) = offset / 1024 ∧
      (offset + pieceLength offset len total).toNat +
        (len.toNat - (total + pieceLength offset len total).toNat) < 2 ^ 32 := by
  have more' := UInt32.lt_iff_toNat_lt.mp more
  have fits : piece offset.toNat (len.toNat - total.toNat) ≤
      len.toNat - total.toNat := Nat.min_le_right _ _
  obtain ⟨blocks, next, next'⟩ :=
    @transfer_advances offset len total more (by omega)
  refine ⟨_, blocks, rfl, ?_, by omega⟩
  rw [← blockNumber_toNat, UInt32.ofNat_toNat]

include idle

/-- A read whose searches meet no empty entry, or cannot take a block. -/
theorem readLoop_quiet
    (quiet : state.Full ∨ state.HoleFree ip
      (blocksOf offset.toNat (len.toNat - total.toNat))) :
    (∀ middle, (readLoop ip offset len total dst fuel).Waits state middle →
      Same state middle) ∧
    ∀ bytes final, (readLoop ip offset len total dst fuel).Runs state bytes
      final → final = state := by
  induction fuel generalizing offset total dst with
  | zero =>
      exact ⟨fun middle waits => (Program.not_waits_pure waits).elim,
        fun bytes final run => (Program.runs_pure.mp run).2.symm⟩
  | succ fuel inductionHypothesis =>
      unfold readLoop
      by_cases more : total < len
      · obtain ⟨rest, blocks, isRest, isBn, noWrap'⟩ :=
          blocksOf_next noWrap more
        rw [blocks] at quiet
        have notHole : state.Full ∨ state.meetsAt ip (offset / 1024) ≠ .hole :=
          quiet.imp_right fun free isHole => by
            rw [State.HoleFree, isBn, isHole] at free
            exact free
        obtain ⟨waits, runs⟩ := inodeLocateBlock_quiet idle notHole
        have quietRest : ∀ {ret : UInt32},
            (state.Full ∨ state.meetsAt ip (offset / 1024) = .found ret) →
            diskIndex ret < totalBlocks → state.Full ∨ state.HoleFree ip (blocksOf
              (offset + pieceLength offset len total).toNat
              (len.toNat - (total + pieceLength offset len total).toNat)) := by
          rw [isRest]
          intro ret found inside
          by_cases full : state.Full
          · exact Or.inl full
          · have free := quiet.resolve_left full
            have isFound := found.resolve_left full
            rw [← isBn] at isFound
            rw [State.holeFree_found isFound inside] at free
            exact Or.inr free
        simp only [if_pos more]
        constructor
        · intro middle here
          rcases Program.waits_bind.mp here with locates | ⟨_, _, locate, here⟩
          · exact waits middle locates
          · obtain ⟨same, found⟩ := runs _ _ locate
            rw [same] at here
            rcases Program.waits_bind.mp here with reads | ⟨_, _, read, here⟩
            · obtain ⟨_, _, rfl⟩ := waits_bufRead.mp reads
              exact ⟨rfl, rfl⟩
            · obtain ⟨_, inside, rfl, rfl⟩ := bufRead_runs read
              rcases Program.waits_bind.mp here with releases | ⟨_, _, release,
                here⟩
              · exact (not_waits_bufRelease releases).elim
              · rw [bufRelease_after_read release] at here
                exact (inductionHypothesis noWrap'
                  (quietRest found inside)).1 middle here
        · intro bytes final run
          obtain ⟨_, _, locate, run⟩ := Program.runs_bind.mp run
          obtain ⟨same, found⟩ := runs _ _ locate
          rw [same] at run
          obtain ⟨_, _, read, run⟩ := Program.runs_bind.mp run
          obtain ⟨_, inside, rfl, rfl⟩ := bufRead_runs read
          obtain ⟨_, _, release, run⟩ := Program.runs_bind.mp run
          rw [bufRelease_after_read release] at run
          exact (inductionHypothesis noWrap' (quietRest found inside)).2 bytes final
            run
      · simp only [if_neg more]
        exact ⟨fun middle waits => (Program.not_waits_pure waits).elim,
          fun bytes final run => (Program.runs_pure.mp run).2.symm⟩

/-- A read that meets an empty entry stores the bitmap. -/
theorem readLoop_hole
    (notFull : ¬state.Full) (enough : len.toNat - total.toNat ≤ fuel)
    (hole : ¬state.HoleFree ip
      (blocksOf offset.toNat (len.toNat - total.toNat))) :
    ∃ middle, (readLoop ip offset len total dst fuel).Waits state middle ∧
      middle.disk ≠ state.disk := by
  induction fuel generalizing offset total dst with
  | zero =>
      rw [Nat.le_zero.mp enough] at hole
      exact absurd trivial hole
  | succ fuel inductionHypothesis =>
      unfold readLoop
      by_cases more : total < len
      · obtain ⟨rest, blocks, isRest, isBn, noWrap'⟩ :=
          blocksOf_next noWrap more
        obtain ⟨positive, _, advance⟩ := pieceLength_bounds offset more
        rw [blocks, State.HoleFree, isBn] at hole
        simp only [if_pos more]
        split at hole
        · next block found =>
            obtain ⟨inside, hole⟩ := Classical.not_imp.mp hole
            obtain ⟨middle, waits, differs⟩ := @inductionHypothesis
              (offset + pieceLength offset len total)
              (total + pieceLength offset len total) _ noWrap' (by omega)
              (by rw [isRest]; exact hole)
            have notHeld : block ∉ state.held := by
              rw [idle]
              exact List.not_mem_nil
            have room : state.held.length < Buf.nBlockBuf := by
              rw [idle]
              decide
            have release := @bufRelease_total
              (state.setHeld (block :: state.held)) block List.mem_cons_self
            rw [State.setHeld_held, List.erase_cons_head,
              State.setHeld_setHeld] at release
            refine ⟨middle, Program.waits_bind.mpr (Or.inr ⟨_, _,
              inodeLocateBlock_found idle found, Program.waits_bind.mpr
                (Or.inr ⟨_, _, bufRead_total notHeld room inside,
                  Program.waits_bind.mpr (Or.inr ⟨_, _, release, waits⟩)⟩)⟩),
              differs⟩
        · next isHole =>
            obtain ⟨middle, waits, differs⟩ :=
              inodeLocateBlock_hole idle notFull isHole
            exact ⟨middle, Program.waits_bind.mpr (Or.inl waits), differs⟩
        · exact absurd trivial hole
      · rw [UInt32.not_lt, UInt32.le_iff_toNat_le] at more
        rw [Nat.sub_eq_zero_of_le more] at hole
        exact absurd trivial hole

end Loop

/-! ## Locks -/

/-- The same locks are held. -/
structure SameLocks (state final : State) : Prop where
  held : final.held = state.held
  slots : ∀ ip, (final.icache ip).slk = (state.icache ip).slk

theorem SameLocks.refl (state : State) : SameLocks state state :=
  ⟨rfl, fun _ => rfl⟩

theorem SameLocks.trans
    (first : SameLocks state middle) (second : SameLocks middle final) :
    SameLocks state final :=
  ⟨second.held.trans first.held,
    fun ip => (second.slots ip).trans (first.slots ip)⟩

theorem SameLocks.setData (state : State) (ip : Slot) (data : Dinode) :
    SameLocks state (state.setData ip data) := by
  refine ⟨rfl, fun other => ?_⟩
  by_cases same : other = ip
  · rw [same, setData_icache_self]
    rfl
  · rw [setData_icache_of_ne same]

theorem blockOfEntry_locks
    {entry result : UInt32}
    (run : (blockOfEntry entry).Runs state result final) :
    SameLocks state final := by
  rcases blockOfEntry_runs run with ⟨_, _, rfl⟩ | ⟨_, allocate⟩
  · exact .refl _
  · obtain ⟨_, taken, search, rest⟩ := Program.runs_bind.mp allocate
    have ends : final = taken := by
      split at rest <;> exact (Program.runs_pure.mp rest).2.symm
    rcases bitmapSearchAndSet_runs search with
      ⟨_, _, same⟩ | ⟨_, _, _, _, same⟩
    · rw [ends, same]
      exact .refl _
    · rw [ends, same]
      exact ⟨rfl, fun _ => rfl⟩

theorem locateBlock_locks
    {level : Nat} {entry bn : UInt32} {result : UInt32 × UInt32}
    (run : (locateBlock entry bn level).Runs state result final) :
    SameLocks state final := by
  induction level generalizing state final entry bn result with
  | zero =>
      obtain ⟨_, _, take, ends⟩ := Program.runs_bind.mp run
      rw [← (Program.runs_pure.mp ends).2]
      exact blockOfEntry_locks take
  | succ level inductionHypothesis =>
      rw [locateBlock_succ] at run
      obtain ⟨block, start, take, walk⟩ := Program.runs_bind.mp run
      obtain ⟨_, _, read, walk⟩ := Program.runs_bind.mp walk
      obtain ⟨_, _, _, isRead⟩ := bufRead_runs read
      obtain ⟨_, _, locate, walk⟩ := Program.runs_bind.mp walk
      obtain ⟨_, _, write, walk⟩ := Program.runs_bind.mp walk
      obtain ⟨_, _, release, ends⟩ := Program.runs_bind.mp walk
      have below := inductionHypothesis locate
      rw [isRead] at below
      rw [← (Program.runs_pure.mp ends).2, bufRelease_runs release,
        bufWrite_runs write]
      refine (blockOfEntry_locks take).trans ⟨?_, fun ip => below.slots ip⟩
      rw [State.setHeld_held, State.setDisk_held, below.held,
        State.setHeld_held, List.erase_cons_head]

theorem inodeLocateBlock_locks
    {ip : Slot} {bn ret : UInt32}
    (run : (inodeLocateBlock ip bn).Runs state ret final) :
    SameLocks state final := by
  rcases search_cases ip bn with ⟨isPanic, _⟩ | ⟨k, below, level, same, _⟩
  · rw [isPanic] at run
    exact (Program.runs_panic run).elim
  · rw [same] at run
    unfold locateAddr at run
    rw [(getInode_total state ip).bind_iff] at run
    obtain ⟨_, _, locate, run⟩ := Program.runs_bind.mp run
    obtain ⟨_, _, modify, ends⟩ := Program.runs_bind.mp run
    rw [← (Program.runs_pure.mp ends).2, ← runs_modifyData.mp modify]
    exact (locateBlock_locks locate).trans (.setData _ _ _)

theorem writeLoop_locks
    {ip : Slot} {offset len total : UInt32} {src : Bytes} {fuel : Nat}
    {result : UInt32 × UInt32}
    (run : (writeLoop ip offset len total src fuel).Runs state result final) :
    SameLocks state final := by
  induction fuel generalizing state offset total with
  | zero =>
      rw [(Program.runs_pure.mp run).2]
      exact .refl _
  | succ fuel inductionHypothesis =>
      unfold writeLoop at run
      split at run
      · obtain ⟨ret, middle, locate, run⟩ := Program.runs_bind.mp run
        obtain ⟨_, _, read, run⟩ := Program.runs_bind.mp run
        obtain ⟨_, _, _, isRead⟩ := bufRead_runs read
        obtain ⟨_, _, write, run⟩ := Program.runs_bind.mp run
        obtain ⟨_, _, release, run⟩ := Program.runs_bind.mp run
        rw [isRead] at write
        have stored := bufRelease_after_write write release
        have rest := inductionHypothesis run
        rw [stored] at rest
        exact (inodeLocateBlock_locks locate).trans ⟨rest.held, rest.slots⟩
      · rw [(Program.runs_pure.mp run).2]
        exact .refl _

theorem inodeWriteData_locks
    {ip : Slot} {offset len result : UInt32} {src : Bytes}
    (run : (inodeWriteData ip offset len src).Runs state result final) :
    SameLocks state final := by
  rcases inodeWriteData_runs run with
    ⟨_, _, rfl⟩ | ⟨_, finish, middle, loop, outcome⟩
  · exact .refl _
  · split at outcome
    · have stored := SameLocks.setData middle ip
        ((middle.icache ip).data.setSize finish)
      rw [outcome]
      exact (writeLoop_locks loop).trans ⟨stored.held, stored.slots⟩
    · rw [outcome]
      exact writeLoop_locks loop

/-- States after any number of calls of `inode_write_data`. -/
inductive Written (start : State) : State → Prop
  | refl : Written start start
  | write {middle final : State} {ip : Slot} {offset len count : UInt32}
      {src : Bytes} : Written start middle →
      (inodeWriteData ip offset len src).Runs middle count final →
      Written start final

theorem Written.locks
    {start : State} (written : Written start state) : SameLocks start state := by
  induction written with
  | refl => exact .refl _
  | write _ run inductionHypothesis =>
      exact inductionHypothesis.trans (inodeWriteData_locks run)

/-! ## What a read leaves -/

/-- Nobody sees a change of the disk or of the block numbers of the inode, not
while the read waits for the disk and not after it. -/
structure ReadLeaves (state : State) (ip : Slot) (offset len : UInt32) :
    Prop where
  waits : ∀ middle, (inodeReadData ip offset len).Waits state middle →
    middle.disk = state.disk ∧
      (middle.icache ip).data.addrs = (state.icache ip).data.addrs
  runs : ∀ bytes final, (inodeReadData ip offset len).Runs state bytes final →
    final.disk = state.disk ∧
      (final.icache ip).data.addrs = (state.icache ip).data.addrs

/-- A read is its loop, for the length that is left of the inode. -/
theorem inodeReadData_loop
    {ip : Slot} (offset len : UInt32) (locked : (state.icache ip).slk = true) :
    (∀ middle, (inodeReadData ip offset len).Waits state middle ↔
      (readLoop ip offset
        (readLength (state.icache ip).data.size offset len) 0 []
        (readLength (state.icache ip).data.size offset len).toNat).Waits state
          middle) ∧
    ∀ bytes final, (inodeReadData ip offset len).Runs state bytes final ↔
      (readLoop ip offset
        (readLength (state.icache ip).data.size offset len) 0 []
        (readLength (state.icache ip).data.size offset len).toNat).Runs state
          bytes final := by
  have isLocked : (Program.assert (state.icache ip).slk
      "inode_read_data: no lock").Runs state () state :=
    Program.runs_assert.mpr ⟨locked, rfl⟩
  have isLoop : inodeReadData ip offset len = (do
      let inode ← getInode ip
      Program.assert inode.slk "inode_read_data: no lock"
      readLoop ip offset (readLength inode.data.size offset len) 0 []
        (readLength inode.data.size offset len).toNat) := by
    unfold inodeReadData
    congr 1
    funext inode
    congr 1
    funext _
    unfold readLength
    split <;> rfl
  rw [isLoop]
  constructor
  · intro middle
    rw [(getInode_total state ip).waits_bind_iff not_waits_getInode,
      isLocked.waits_bind_iff Program.not_waits_assert]
  · intro bytes final
    rw [(getInode_total state ip).bind_iff, isLocked.bind_iff]

/-- A read does not go around the end of the offsets. -/
theorem readLength_fits
    {size offset len : UInt32}
    (noWrap : offset.toNat + len.toNat < 2 ^ 32) :
    offset.toNat + (readLength size offset len).toNat < 2 ^ 32 := by
  have bound := size.toNat_lt
  have bound' := offset.toNat_lt
  unfold readLength
  split
  · exact bound'
  · next inside =>
      split
      · rw [ge_iff_le, UInt32.not_le, UInt32.lt_iff_toNat_lt] at inside
        rw [UInt32.toNat_sub_of_le _ _ (UInt32.le_iff_toNat_le.mpr
          (Nat.le_of_lt inside))]
        omega
      · exact noWrap

/-- A file without data. -/
def blankFile : State where
  disk index := if index = 130 then Function.update zeroBlock 0 1
    else zeroBlock
  held := []
  icache _ := ⟨⟨ftFile, 0, 0, 1, 0, fun _ => 0⟩, 1, 1, true, true⟩
  lkIcache := false

/-- A byte of the second block is written, and a byte of the first is read. -/
def sparseRead : FsM (UInt32 × UInt32) := do
  let _ ← inodeWriteData 0 1024 1 (fun _ => 7)
  let before ← getInode 0
  let _ ← inodeReadData 0 0 1
  let after ← getInode 0
  return (before.data.addrs 0, after.data.addrs 0)

end Fs
end WhuOs
