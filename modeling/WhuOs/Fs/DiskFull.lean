import WhuOs.Fs.FreeData

/-!
# Writing to a full disk

`locate_block` does not check what `bitmap_alloc_block` returns, so a write goes
on with block 0, the super block, when no block is left.  To say that an
allocation fails during a write, the functions are given the allocator as a
parameter, and an allocator that stops when it finds nothing takes its place.
-/

namespace WhuOs
namespace Fs

open Library
open Library.Bytes
open Program (Runs AgreesUnless assert)

variable {state final : State}

/-! ## The allocator as a parameter -/

section Allocator

variable (alloc : FsM UInt32)

/-- `blockOfEntry` with an allocator. -/
def blockOfEntryWith (entry : UInt32) : FsM UInt32 :=
  if entry = 0 then alloc else return entry

/-- `locateBlock` with an allocator. -/
def locateBlockWith (entry bn : UInt32) :
    (level : Nat) → FsM (UInt32 × UInt32)
  | 0 => do
      let entry ← blockOfEntryWith alloc entry
      return (entry, entry)
  | level + 1 => do
      let entry ← blockOfEntryWith alloc entry
      let nextSize := UInt32.ofNat (entryPerBlock ^ level)
      let data ← bufRead entry
      let index := 4 * (bn / nextSize).toNat
      let (ret, nextEntry) ←
        locateBlockWith (read32 data index) (bn % nextSize) level
      bufWrite entry (write32 data index nextEntry)
      bufRelease entry
      return (ret, entry)

/-- `locateAddr` with an allocator. -/
def locateAddrWith (ip : Slot) (index : Fin nAddrs) (bn : UInt32)
    (level : Nat) : FsM UInt32 := do
  let inode ← getInode ip
  let (ret, entry) ← locateBlockWith alloc (inode.data.addrs index) bn level
  modifyData ip fun dinode => dinode.setAddr index entry
  return ret

/-- `inodeLocateBlock` with an allocator. -/
def inodeLocateBlockWith (ip : Slot) (bn : UInt32) : FsM UInt32 :=
  locateIn (locateAddrWith alloc ip)
    (Program.panic "inode_locate_block: bn too large") bn

/-- `writeLoop` with an allocator. -/
def writeLoopWith (ip : Slot) (offset len total : UInt32) (src : Bytes) :
    (fuel : Nat) → FsM (UInt32 × UInt32)
  | 0 => return (offset, total)
  | fuel + 1 =>
      if total < len then do
        let blockOffset := (offset % 1024).toNat
        let blockNum ← inodeLocateBlockWith alloc ip (offset / 1024)
        let toWrite := pieceLength offset len total
        let data ← bufRead blockNum
        bufWrite blockNum (memmove data blockOffset
          (fun index => src (total.toNat + index)) toWrite.toNat)
        bufRelease blockNum
        writeLoopWith ip (offset + toWrite) len (total + toWrite) src fuel
      else
        return (offset, total)

/-- `inodeWriteData` with an allocator. -/
def inodeWriteDataWith (ip : Slot) (offset len : UInt32) (src : Bytes) :
    FsM UInt32 := do
  let inode ← getInode ip
  assert inode.slk "inode_write_data: no lock"
  if (offset + len).toNat > inodeMaxSize then
    return 0
  else
    let (offset, total) ← writeLoopWith alloc ip offset len 0 src len.toNat
    let inode ← getInode ip
    if offset > inode.data.size then
      modifyData ip fun dinode => dinode.setSize offset
      inodeRw ip true
      return total
    else
      return total

end Allocator

/-- The message of the allocator that stops. -/
abbrev diskFull : String := "disk full"

/-- `bitmap_alloc_block`, stopping where it finds no block. -/
def allocOrStop : FsM UInt32 := do
  let blockNum ← bitmapAllocBlock
  if blockNum = 0 then
    Program.panic diskFull
  else
    return blockNum

/-- An allocation fails at some point of a write. -/
def AllocationFails (state : State) (ip : Slot) (offset len : UInt32)
    (src : Bytes) : Prop :=
  (inodeWriteDataWith allocOrStop ip offset len src).exec state =
    .error diskFull

/-! ## The parameter is the allocator -/

section Agrees

variable {alloc : FsM UInt32} {message : String}
  (same : AgreesUnless message alloc bitmapAllocBlock)

include same

theorem locateBlockWith_agrees (entry bn : UInt32) (level : Nat) :
    AgreesUnless message (locateBlockWith alloc entry bn level)
      (locateBlock entry bn level) := by
  have block : ∀ entry, AgreesUnless message (blockOfEntryWith alloc entry)
      (blockOfEntry entry) := fun entry => .ite same (.refl _)
  induction level generalizing entry bn with
  | zero => exact .bind (block entry) fun _ => .refl _
  | succ level inductionHypothesis =>
      exact .bind (block entry) fun _ => .bind (.refl _) fun _ =>
        .bind (inductionHypothesis _ _) fun _ => .refl _

theorem inodeLocateBlockWith_agrees (ip : Slot) (bn : UInt32) :
    AgreesUnless message (inodeLocateBlockWith alloc ip bn)
      (inodeLocateBlock ip bn) := by
  have address : ∀ k bn level, AgreesUnless message
      (locateAddrWith alloc ip k bn level) (locateAddr ip k bn level) :=
    fun k bn level => .bind (.refl _) fun _ =>
      .bind (locateBlockWith_agrees same _ _ _) fun _ => .refl _
  rw [inodeLocateBlock_eq]
  exact .ite (address _ _ _) (.ite (address _ _ _)
    (.ite (address _ _ _) (.refl _)))

theorem writeLoopWith_agrees
    (ip : Slot) (offset len total : UInt32) (src : Bytes) (fuel : Nat) :
    AgreesUnless message (writeLoopWith alloc ip offset len total src fuel)
      (writeLoop ip offset len total src fuel) := by
  induction fuel generalizing offset total with
  | zero => exact .refl _
  | succ fuel inductionHypothesis =>
      exact .ite (.bind (inodeLocateBlockWith_agrees same _ _) fun _ =>
        .bind (.refl _) fun _ => .bind (.refl _) fun _ =>
          .bind (.refl _) fun _ => inductionHypothesis _ _) (.refl _)

theorem inodeWriteDataWith_agrees
    (ip : Slot) (offset len : UInt32) (src : Bytes) :
    AgreesUnless message (inodeWriteDataWith alloc ip offset len src)
      (inodeWriteData ip offset len src) :=
  .bind (.refl _) fun _ => .bind (.refl _) fun _ =>
    .ite (.refl _) (.bind (writeLoopWith_agrees same _ _ _ _ _ _) fun _ =>
      .refl _)

end Agrees

/-- A write in which no allocation fails does what it does with the allocator
that stops. -/
theorem inodeWriteData_of_not_fails
    {ip : Slot} {offset len : UInt32} {src : Bytes}
    (succeeds : ¬AllocationFails state ip offset len src) :
    (inodeWriteDataWith allocOrStop ip offset len src).exec state =
      (inodeWriteData ip offset len src).exec state := by
  have same : AgreesUnless diskFull allocOrStop bitmapAllocBlock := by
    intro before
    unfold allocOrStop
    rw [Program.exec_bind]
    cases outcome : bitmapAllocBlock.exec before with
    | error message => exact Or.inr rfl
    | ok result =>
        by_cases full : result.1 = 0
        · left
          simp only [if_pos full]
          rfl
        · right
          simp only [if_neg full]
          rfl
  exact (inodeWriteDataWith_agrees same ip offset len src state).resolve_left
    succeeds

/-! ## A full disk -/

section Full

variable {ip : Slot} {offset len : UInt32} {src : Bytes}

/-- A write gives up when the disk is full: it counts fewer bytes than it was
asked for, and changes the bitmap, the block of the inode and blocks of the file
only. -/
def GivesUp (state : State) (ip : Slot) (offset len : UInt32)
    (src : Bytes) : Prop :=
  ∃ count final, (inodeWriteData ip offset len src).Runs state count final ∧
    count.toNat < len.toNat ∧
    ∀ index, final.disk index ≠ state.disk index →
      index = 130 ∨
      index = diskIndex (inodeBlock (state.icache ip).inodeNum) ∨
      ∃ block, Owns final ip block ∧ index = diskIndex block

/-- A write that fits in an inode and returns counts all bytes, so it gives up
on no full disk. -/
theorem write_givesUp_iff
    (fits : offset.toNat + len.toNat ≤ inodeMaxSize) :
    (AllocationFails state ip offset len src →
      GivesUp state ip offset len src) ↔
      ¬AllocationFails state ip offset len src := by
  have size : inodeMaxSize = 67643392 := rfl
  have sum : (offset + len).toNat = offset.toNat + len.toNat := by
    rw [UInt32.toNat_add]
    exact Nat.mod_eq_of_lt (by omega)
  have never : ¬GivesUp state ip offset len src := by
    rintro ⟨count, final, run, fewer, _⟩
    rcases inodeWriteData_runs run with
      ⟨large, _⟩ | ⟨_, finish, middle, loop, _⟩
    · omega
    · have all : count = len :=
        writeLoop_count (Nat.zero_le _) (Nat.sub_le _ _) loop
      rw [all] at fewer
      exact Nat.lt_irrefl _ fewer
  exact ⟨fun gives fails => never (gives fails),
    fun succeeds fails => absurd fails succeeds⟩

/-! ## The super block is overwritten -/

/-- A locked inode without its first blocks on a disk without free blocks. -/
structure OnFullDisk (state : State) (ip : Slot) (bn : UInt32) : Prop where
  full : firstClear state.dataBitmap = none
  idle : state.held = []
  locked : (state.icache ip).slk = true
  direct : bn.toNat < 10
  missing : (state.icache ip).data.addrs (Fin.ofNat nAddrs bn.toNat) = 0

variable {bn : UInt32}

theorem OnFullDisk.alloc
    (onFull : OnFullDisk state ip bn) :
    bitmapAllocBlock.Runs state 0 state := by
  have notHeld : dataBitmapStart ∉ state.held := by
    rw [onFull.idle]
    exact List.not_mem_nil
  have room : state.held.length < Buf.nBlockBuf := by
    rw [onFull.idle]
    decide
  obtain ⟨result, final, run⟩ := bitmapAllocBlock_total notHeld room
    (firstClear_eq_none onFull.full (by decide))
  rcases bitmapAllocBlock_runs run with ⟨_, rfl, rfl⟩ | ⟨number, first, _⟩
  · exact run
  · rw [onFull.full] at first
    cases first

/-- The block below a direct block number is looked for in one step. -/
theorem OnFullDisk.locateIn
    (onFull : OnFullDisk state ip bn) {α : Type}
    (locate : Fin nAddrs → UInt32 → Nat → α) (overflow : α) :
    ∃ below, locateIn locate overflow bn =
      locate (Fin.ofNat nAddrs bn.toNat) below 0 := by
  have size : maxBlocks = 66058 := rfl
  have direct := onFull.direct
  have place : placeOf bn.toNat = (Fin.ofNat nAddrs bn.toNat, []) :=
    if_pos direct
  obtain ⟨below, same, _⟩ := locateIn_eq locate overflow
    (show bn.toNat < maxBlocks by omega)
  rw [place, addrLevel_direct direct] at same
  exact ⟨below, same⟩

/-- The block found is block 0. -/
theorem OnFullDisk.locate
    (onFull : OnFullDisk state ip bn) :
    (inodeLocateBlock ip bn).Runs state 0 state := by
  obtain ⟨below, same⟩ := onFull.locateIn (locateAddr ip)
    (Program.panic "inode_locate_block: bn too large")
  have inode : (getInode ip).Runs state (state.icache ip) state :=
    runs_getInode.mpr ⟨rfl, rfl⟩
  have block : (locateBlock ((state.icache ip).data.addrs
      (Fin.ofNat nAddrs bn.toNat)) below 0).Runs state (0, 0) state := by
    unfold locateBlock blockOfEntry
    rw [if_pos onFull.missing, onFull.alloc.bind_iff, Program.runs_pure]
    exact ⟨rfl, rfl⟩
  have stored : (modifyData ip fun dinode => dinode.setAddr
      (Fin.ofNat nAddrs bn.toNat) 0).Runs state () state := by
    have kept : (state.icache ip).data.setAddr (Fin.ofNat nAddrs bn.toNat) 0 =
        (state.icache ip).data := by
      rw [← onFull.missing, setAddr_self]
    rw [runs_modifyData, kept, setData_self]
  rw [inodeLocateBlock_eq, same]
  unfold locateAddr
  rw [inode.bind_iff, block.bind_iff, stored.bind_iff, Program.runs_pure]
  exact ⟨rfl, rfl⟩

/-- With the allocator that stops, no block is found. -/
theorem OnFullDisk.locate_stops
    (onFull : OnFullDisk state ip bn) :
    (inodeLocateBlockWith allocOrStop ip bn).exec state = .error diskFull := by
  obtain ⟨below, same⟩ := onFull.locateIn (locateAddrWith allocOrStop ip)
    (Program.panic "inode_locate_block: bn too large")
  have inode : (getInode ip).Runs state (state.icache ip) state :=
    runs_getInode.mpr ⟨rfl, rfl⟩
  have stops : allocOrStop.exec state = .error diskFull := by
    unfold allocOrStop
    rw [onFull.alloc.exec_bind, if_pos rfl]
    rfl
  unfold inodeLocateBlockWith
  rw [same]
  unfold locateAddrWith
  rw [inode.exec_bind]
  refine Program.exec_bind_error ?_ _
  unfold locateBlockWith blockOfEntryWith
  rw [if_pos onFull.missing]
  exact Program.exec_bind_error stops _

theorem writeLoop_done
    {total : UInt32} (done : ¬total < len) (fuel : Nat) :
    (writeLoop ip offset len total src fuel).Runs state (offset, total)
      state := by
  cases fuel with
  | zero => exact Program.runs_pure.mpr ⟨rfl, rfl⟩
  | succ fuel =>
      rw [writeLoop, if_neg done]
      exact Program.runs_pure.mpr ⟨rfl, rfl⟩

section OnePiece

variable (onFull : OnFullDisk state ip (offset / 1024))
  (onePiece : offset.toNat % 1024 + len.toNat ≤ 1024)

include onFull onePiece

theorem OnFullDisk.fits : ¬(offset + len).toNat > inodeMaxSize := by
  have size : inodeMaxSize = 67643392 := rfl
  have direct := onFull.direct
  rw [blockNumber_toNat] at direct
  rw [UInt32.toNat_add, Nat.mod_eq_of_lt (by omega)]
  omega

variable (some : 0 < len.toNat)

include some

/-- The allocation of the first block of the write fails. -/
theorem OnFullDisk.fails : AllocationFails state ip offset len src := by
  have inode : (getInode ip).Runs state (state.icache ip) state :=
    runs_getInode.mpr ⟨rfl, rfl⟩
  have isLocked : (assert (state.icache ip).slk
      "inode_write_data: no lock").Runs state () state :=
    Program.runs_assert.mpr ⟨onFull.locked, rfl⟩
  have more : (0 : UInt32) < len := UInt32.lt_iff_toNat_lt.mpr some
  unfold AllocationFails inodeWriteDataWith
  rw [inode.exec_bind, isLocked.exec_bind,
    if_neg (onFull.fits onePiece)]
  refine Program.exec_bind_error ?_ _
  obtain ⟨fuel, isSucc⟩ := Nat.exists_eq_succ_of_ne_zero some.ne'
  rw [isSucc, writeLoopWith, if_pos more]
  exact Program.exec_bind_error onFull.locate_stops _

/-- The write stores its bytes in block 0 and counts all of them. -/
theorem OnFullDisk.overwrites :
    ∃ final, (inodeWriteData ip offset len src).Runs state len final ∧
      final.disk 0 = memmove (state.disk 0) (offset.toNat % 1024) src
        len.toNat := by
  have inode : ∀ state : State,
      (getInode ip).Runs state (state.icache ip) state :=
    fun _ => runs_getInode.mpr ⟨rfl, rfl⟩
  have isLocked : (assert (state.icache ip).slk
      "inode_write_data: no lock").Runs state () state :=
    Program.runs_assert.mpr ⟨onFull.locked, rfl⟩
  have more : (0 : UInt32) < len := UInt32.lt_iff_toNat_lt.mpr some
  have zero : (0 : UInt32).toNat = 0 := rfl
  have length : pieceLength offset len 0 = len := by
    apply UInt32.toNat_inj.mp
    rw [pieceLength_toNat more]
    unfold piece
    omega
  have notHeld : (0 : UInt32) ∉ state.held := by
    rw [onFull.idle]
    exact List.not_mem_nil
  have room : state.held.length < Buf.nBlockBuf := by
    rw [onFull.idle]
    decide
  let written := memmove (state.disk 0) (offset.toNat % 1024) src len.toNat
  have first : (state.setDisk 0 written).disk 0 = written := by
    rw [State.setDisk_disk, Function.update_self]
  have read := bufRead_total notHeld room (by decide : diskIndex 0 < _)
  have write : (bufWrite 0 written).Runs (state.setHeld (0 :: state.held)) ()
      ((state.setHeld (0 :: state.held)).setDisk 0 written) :=
    bufWrite_total List.mem_cons_self _
  have release : (bufRelease 0).Runs
      ((state.setHeld (0 :: state.held)).setDisk 0 written) ()
      (state.setDisk 0 written) := by
    have released := @bufRelease_total
      ((state.setHeld (0 :: state.held)).setDisk 0 written) 0
      List.mem_cons_self
    have erased : (0 :: state.held).erase (0 : UInt32) = state.held :=
      List.erase_cons_head ..
    simp only [State.setDisk_held, State.setHeld_held, erased] at released
    exact released
  have loop : (writeLoop ip offset len 0 src len.toNat).Runs state
      (offset + len, len) (state.setDisk 0 written) := by
    obtain ⟨fuel, isSucc⟩ := Nat.exists_eq_succ_of_ne_zero some.ne'
    rw [isSucc, writeLoop, if_pos more]
    simp only [length, zero, Nat.zero_add, UInt32.zero_add]
    rw [onFull.locate.bind_iff, read.bind_iff]
    refine (Program.Runs.bind_iff (by
      rw [diskIndex_zero, UInt32.toNat_mod]
      exact write)).mpr ?_
    rw [release.bind_iff]
    exact writeLoop_done (UInt32.lt_irrefl len) fuel
  unfold inodeWriteData
  simp only [(inode state).bind_iff, isLocked.bind_iff,
    if_neg (onFull.fits onePiece), loop.bind_iff,
    (inode (state.setDisk 0 written)).bind_iff]
  split
  · let grown := (state.setDisk 0 written).setData ip
      ((state.icache ip).data.setSize (offset + len))
    have locked : (grown.icache ip).slk = true := by
      simp only [grown, setData_icache_self]
      exact onFull.locked
    have blockNotHeld : inodeBlock (grown.icache ip).inodeNum ∉
        grown.held := by
      show _ ∉ state.held
      rw [onFull.idle]
      exact List.not_mem_nil
    have stored := inodeRw_write_total locked blockNotHeld room
    refine ⟨_, Program.runs_bind.mpr ⟨(), grown, runs_modifyData.mpr rfl,
      (stored.bind_iff).mpr (Program.runs_pure.mpr ⟨rfl, rfl⟩)⟩, ?_⟩
    have kept : (grown.storeDinode (grown.icache ip).inodeNum
        (grown.icache ip).data).disk 0 = grown.disk 0 := by
      unfold State.storeDinode
      rw [State.setDisk_disk, diskIndex_inodeBlock, Function.update_of_ne]
      omega
    rw [kept]
    exact first
  · exact ⟨_, Program.runs_pure.mpr ⟨rfl, rfl⟩, first⟩

end OnePiece

end Full

/-- A locked empty file on a disk whose blocks are all taken. -/
def fullDisk : State where
  disk index := if index = 130 then fun _ => 0xFF else zeroBlock
  held := []
  icache _ := ⟨⟨ftFile, 0, 0, 1, 0, fun _ => 0⟩, 1, 1, true, true⟩
  lkIcache := false

theorem fullDisk_onFullDisk : OnFullDisk fullDisk 0 (0 / 1024) :=
  ⟨by decide +kernel, rfl, rfl, by decide, rfl⟩

theorem fullDisk_fails :
    AllocationFails fullDisk 0 0 1 fun _ => 7 :=
  fullDisk_onFullDisk.fails (by decide) (by decide)

/-- Writing one byte to an empty file on a full disk counts the byte and
changes the super block. -/
theorem full_write_changes_superBlock :
    AllocationFails fullDisk 0 0 1 (fun _ => 7) ∧
      (∃ final, (inodeWriteData 0 0 1 fun _ => 7).Runs fullDisk 1 final ∧
        final.disk 0 ≠ fullDisk.disk 0) ∧
      ¬GivesUp fullDisk 0 0 1 fun _ => 7 := by
  have damage : ∃ final,
      (inodeWriteData 0 0 1 fun _ => 7).Runs fullDisk 1 final ∧
      final.disk 0 = memmove (fullDisk.disk 0) 0 (fun _ => 7) 1 :=
    fullDisk_onFullDisk.overwrites (by decide) (by decide)
  obtain ⟨after, run, stored⟩ := damage
  refine ⟨fullDisk_fails, ⟨after, run, fun same => ?_⟩, ?_⟩
  · rw [stored] at same
    exact absurd (congrFun same 0) (by decide)
  · rintro ⟨count, final, run', fewer, _⟩
    obtain ⟨rfl, rfl⟩ := run'.deterministic run
    exact Nat.lt_irrefl _ fewer

/-- The write of one byte to the full disk does not give up. -/
theorem write_givesUp_fullDisk :
    ¬(AllocationFails fullDisk 0 0 1 (fun _ => 7) →
      GivesUp fullDisk 0 0 1 fun _ => 7) :=
  fun gives => (write_givesUp_iff (by decide)).mp gives fullDisk_fails

end Fs
end WhuOs
