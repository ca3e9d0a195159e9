import WhuOs.Fs.LastRelease

/-!
# Numbers of inodes

The bitmap of inodes has as many bits as a block, and the inode area has room
for fewer inodes.  A number from the bitmap is inside the area exactly as long
as the first clear bit is.
-/

namespace WhuOs
namespace Fs

open Library
open Program (Runs)

variable {state final : State}

/-! ## Creating an inode -/

/-- The stored fields of a new inode. -/
def newDinode (type major minor : UInt16) : Dinode :=
  ⟨type, major, minor, 1, 0, fun _ => 0⟩

/-- Finding a slot changes the cache only. -/
theorem inodeAlloc_frame
    {inodeNum : UInt16} {ip : Slot}
    (run : (inodeAlloc inodeNum).Runs state ip final) :
    final.disk = state.disk ∧ final.held = state.held ∧
      final.lkIcache = state.lkIcache := by
  rcases inodeAlloc_runs run with ⟨_, rfl⟩ | ⟨_, _, rfl⟩
  · exact ⟨rfl, rfl, rfl⟩
  · exact ⟨rfl, rfl, rfl⟩

/-- No inode is stored in the bitmap of inodes. -/
theorem storeDinode_bitmap (inodeNum : UInt16) (dinode : Dinode) :
    (state.storeDinode inodeNum dinode).inodeBitmap = state.inodeBitmap := by
  unfold State.inodeBitmap State.storeDinode
  rw [State.setDisk_disk, diskIndex_inodeBlock, Function.update_of_ne]
  omega

/-- Creating an inode takes a number, finds a slot for it, and stores the new
fields in the slot and on disk. -/
theorem inodeCreate_runs
    {type major minor : UInt16} {result : Option Slot}
    (run : (inodeCreate type major minor).Runs state result final) :
    (firstClear state.inodeBitmap = none ∧ result = none ∧ final = state) ∨
    ∃ (number : Nat) (inodeNum : UInt16) (ip : Slot) (middle : State),
      firstClear state.inodeBitmap = some number ∧
      number ≠ 0 ∧ inodeNum.toNat = number ∧ result = some ip ∧
      (inodeAlloc inodeNum).Runs
        (state.setDisk 1 (setBit state.inodeBitmap number)) ip middle ∧
      (middle.icache ip).ref ≠ 0 ∧ (middle.icache ip).slk = false ∧
      final = (middle.setInode ip ⟨newDinode type major minor, inodeNum,
        (middle.icache ip).ref, true, false⟩).storeDinode inodeNum
          (newDinode type major minor) := by
  simp only [inodeCreate, Program.runs_bind] at run
  obtain ⟨inodeNum, _, bitmap, rest⟩ := run
  rcases bitmapAllocInode_runs bitmap with
    ⟨full, rfl, rfl⟩ | ⟨number, first, notZero, toNat, rfl⟩
  · rw [if_pos rfl, Program.runs_pure] at rest
    exact Or.inl ⟨full, rest.1.symm, rest.2.symm⟩
  · have notNull : inodeNum ≠ 0 := by
      rintro rfl
      exact notZero toNat.symm
    rw [if_neg notNull] at rest
    simp only [Program.runs_bind, runs_modifyData, Program.runs_pure] at rest
    obtain ⟨ip, middle, alloc, _, _, lock, _, _, rfl, _, _, write, _, _,
      unlock, rfl, rfl⟩ := rest
    obtain ⟨referenced, unlocked, rfl⟩ := inodeLock_runs lock
    obtain ⟨_, rfl⟩ := inodeRw_write_stores write
    obtain ⟨_, rfl⟩ := inodeUnlock_runs unlock
    have isNumber : (middle.icache ip).inodeNum = inodeNum := by
      rcases inodeAlloc_runs alloc with ⟨same, rfl⟩ | ⟨_, _, rfl⟩
      · rw [State.setInode_icache, Function.update_self]
        exact same
      · rw [State.setInode_icache, Function.update_self]
    refine Or.inr ⟨number, inodeNum, ip, middle, first, notZero, toNat, rfl,
      alloc, referenced, unlocked, ?_⟩
    simp only [State.setData, State.setInode_setInode, State.setInode_icache,
      Function.update_self, storeDinode_icache, Inode.setData_inodeNum,
      Inode.setData_data]
    have lockedNumber : (middle.locked ip).inodeNum = inodeNum := isNumber
    have slot : ((middle.locked ip).setData
        (newDinode type major minor)).setSlk false =
        ⟨newDinode type major minor, inodeNum, (middle.icache ip).ref, true,
          false⟩ := by
      rw [← isNumber]
      rfl
    rw [lockedNumber, ← slot]
    show ((middle.setInode ip _).setInode ip _).storeDinode inodeNum
      (newDinode type major minor) = _
    rw [State.setInode_setInode]
    rfl

/-- With a number left and a slot that nobody references, an inode can be
created. -/
theorem inodeCreate_total
    {number : Nat} (first : firstClear state.inodeBitmap = some number)
    (notZero : number ≠ 0) (idle : state.held = [])
    (unlocked : state.lkIcache = false)
    (free : ∀ ip, (state.icache ip).ref = 0 ∧ (state.icache ip).slk = false)
    (type major minor : UInt16) :
    ∃ ip final, (inodeCreate type major minor).Runs state (some ip) final := by
  have size : Buf.nBlockBuf = 64 := rfl
  have notHeld : inodeBitmapStart ∉ state.held := by
    rw [idle]
    exact List.not_mem_nil
  have room : state.held.length < Buf.nBlockBuf := by
    rw [idle, size]
    decide
  have firstBit : bitAt state.inodeBitmap 0 = true :=
    (firstClear_eq_some first).2.2 0 (Nat.pos_of_ne_zero notZero)
  obtain ⟨inodeNum, marked, bitmap⟩ := bitmapAllocInode_total notHeld room
    firstBit
  rcases bitmapAllocInode_runs bitmap with
    ⟨full, _⟩ | ⟨number', first', _, toNat, rfl⟩
  · rw [first] at full
    cases full
  · rw [first] at first'
    obtain rfl := Option.some.inj first'
    have notNull : inodeNum ≠ 0 := by
      rintro rfl
      exact notZero toNat.symm
    obtain ⟨ip, middle, alloc⟩ := @inodeAlloc_total
      (state.setDisk 1 (setBit state.inodeBitmap number)) 0 unlocked
      (free 0).1 inodeNum
    have middleHeld : middle.held = [] ∧ (middle.icache ip).ref ≠ 0 ∧
        (middle.icache ip).slk = false := by
      rcases inodeAlloc_runs alloc with ⟨_, rfl⟩ | ⟨_, _, rfl⟩
      · refine ⟨idle, ?_, ?_⟩
        · rw [State.setInode_icache, Function.update_self, Inode.setRef_ref,
            State.setDisk_icache, (free ip).1]
          decide
        · rw [State.setInode_icache, Function.update_self]
          exact (free ip).2
      · refine ⟨idle, ?_, ?_⟩
        · rw [State.setInode_icache, Function.update_self]
          exact (by decide : (1 : UInt32) ≠ 0)
        · rw [State.setInode_icache, Function.update_self]
          exact (free ip).2
    obtain ⟨held, referenced, isFree⟩ := middleHeld
    have blockNotHeld : ∀ block, block ∉ middle.held := by
      intro block
      rw [held]
      exact List.not_mem_nil
    have middleRoom : middle.held.length < Buf.nBlockBuf := by
      rw [held, size]
      decide
    have lock := inodeLock_total referenced isFree (blockNotHeld _) middleRoom
    let filled := (middle.setInode ip (middle.locked ip)).setData ip
      (newDinode type major minor)
    have isLocked : (filled.icache ip).slk = true := by
      simp only [filled, State.setData, State.setInode_icache,
        Function.update_self]
      rfl
    have write := inodeRw_write_total isLocked (blockNotHeld _) middleRoom
    obtain ⟨final, unlock⟩ : ∃ final, (inodeUnlock ip).Runs
        (filled.storeDinode (filled.icache ip).inodeNum
          (filled.icache ip).data) () final :=
      ⟨_, inodeUnlock_total isLocked⟩
    refine ⟨ip, final, ?_⟩
    unfold inodeCreate
    rw [bitmap.bind_iff, if_neg notNull, alloc.bind_iff, lock.bind_iff]
    simp only [Program.runs_bind, runs_modifyData, Program.runs_pure]
    exact ⟨(), _, rfl, (), _, write, (), _, unlock, trivial, rfl⟩

/-! ## Runs -/

/-- Creating an inode, or giving back a reference. -/
inductive CreationCall
  | create (type major minor : UInt16)
  | free (ip : Slot)

/-- Calls that do not panic. -/
inductive CreationStep : State → CreationCall → State → Prop
  | create {before after : State} {type major minor : UInt16}
      {result : Option Slot} :
      (inodeCreate type major minor).Runs before result after →
      CreationStep before (.create type major minor) after
  | free {before after : State} {ip : Slot} :
      (inodeFree ip).Runs before () after →
      CreationStep before (.free ip) after

/-- Runs on a fresh image. -/
def creationSystem : TransitionSystem State CreationCall where
  Init state := ∃ junk, state = mkfsState junk
  Step := CreationStep

/-- Between calls no buffer is locked, and the number 0 is taken. -/
structure Numbering (state : State) : Prop where
  idle : state.held = []
  rootTaken : bitAt state.inodeBitmap 0 = true

theorem Numbering.step
    {before after : State} {call : CreationCall}
    (numbering : Numbering before) (step : CreationStep before call after) :
    Numbering after := by
  cases step with
  | free run =>
      obtain ⟨rfl, _⟩ := inodeFree_runs run
      exact ⟨numbering.idle, numbering.rootTaken⟩
  | create run =>
      rcases inodeCreate_runs run with ⟨_, _, rfl⟩ |
        ⟨number, inodeNum, ip, middle, _, _, _, _, alloc, _, _, rfl⟩
      · exact numbering
      · obtain ⟨disk, held, _⟩ := inodeAlloc_frame alloc
        refine ⟨held.trans numbering.idle, ?_⟩
        rw [storeDinode_bitmap]
        show bitAt (middle.disk 1) 0 = true
        rw [disk, State.setDisk_disk, Function.update_self, bitAt_setBit,
          numbering.rootTaken, Bool.or_true]

theorem numbering_of_reachable
    (reachable : creationSystem.Reachable state) : Numbering state := by
  refine reachable.invariant ?_ ?_
  · rintro _ ⟨junk, rfl⟩
    refine ⟨rfl, ?_⟩
    show bitAt firstBitmap 0 = true
    decide +kernel
  · intro before call after numbering _ step
    exact numbering.step step

/-! ## The inode area -/

/-- `sb.inode_blocks`. -/
def inodeBlocks : UInt32 := 128

/-- The block of an inode is in the inode area. -/
def InsideArea (inodeNum : UInt16) : Prop :=
  inodeStart ≤ inodeBlock inodeNum ∧
    inodeBlock inodeNum < inodeStart + inodeBlocks

/-- An inode that is written reads back, and nothing else on the disk is
changed. -/
def StoredAlone (inodeNum : UInt16) : Prop :=
  ∀ (state written reread : State) (ip : Slot),
    (state.icache ip).inodeNum = inodeNum →
    (inodeRw ip true).Runs state () written →
    (inodeRw ip false).Runs written () reread →
    (reread.icache ip).data = (state.icache ip).data ∧
    (∀ other, other ≠ inodeNum →
      reread.dinodeAt other = state.dinodeAt other) ∧
    reread.inodeBitmap = state.inodeBitmap ∧
    reread.dataBitmap = state.dataBitmap ∧
    ∀ index, 131 ≤ index → reread.disk index = state.disk index

/-- The next number is inside the inode area, where inodes are stored without
touching anything else. -/
def NextInside (state : State) : Prop :=
  ∀ inodeNum after, bitmapAllocInode.Runs state inodeNum after →
    inodeNum ≠ 0 → InsideArea inodeNum ∧ StoredAlone inodeNum

theorem insideArea_iff {inodeNum : UInt16} :
    InsideArea inodeNum ↔ inodeNum.toNat < maxInodes := by
  have size : maxInodes = 2048 := rfl
  have start : inodeStart.toNat = 2 := rfl
  have stop : (inodeStart + inodeBlocks).toNat = 130 := rfl
  unfold InsideArea
  rw [UInt32.le_iff_toNat_le, UInt32.lt_iff_toNat_lt, inodeBlock_toNat, start,
    stop]
  omega

theorem storedAlone_of_small
    {inodeNum : UInt16} (small : inodeNum.toNat < maxInodes) :
    StoredAlone inodeNum := by
  rintro state written reread ip rfl write read
  obtain ⟨_, rfl⟩ := inodeRw_write_stores write
  obtain ⟨_, rfl⟩ := inodeRw_read_runs read
  refine ⟨?_, fun other differs => ?_, storeDinode_bitmap _ _, ?_,
    fun index large => ?_⟩
  · rw [State.setInode_icache, Function.update_self]
    exact dinodeAt_storeDinode_self _ _
  · exact dinodeAt_storeDinode_of_ne differs _
  · exact storeDinode_disk_of_ne small (Or.inr (by decide))
  · exact storeDinode_disk_of_ne small (Or.inr (by omega))

/-- In every state that creations reach, the next number is inside the inode
area exactly when the first clear bit of the bitmap is, or no bit is clear. -/
theorem nextInside_iff (reachable : creationSystem.Reachable state) :
    NextInside state ↔
      ∀ number, firstClear state.inodeBitmap = some number →
        number < maxInodes := by
  obtain ⟨idle, rootTaken⟩ := numbering_of_reachable reachable
  constructor
  · intro inside number first
    have notHeld : inodeBitmapStart ∉ state.held := by
      rw [idle]
      exact List.not_mem_nil
    have room : state.held.length < Buf.nBlockBuf := by
      rw [idle]
      decide
    obtain ⟨inodeNum, after, run⟩ := bitmapAllocInode_total notHeld room
      rootTaken
    rcases bitmapAllocInode_runs run with
      ⟨full, _⟩ | ⟨number', first', notZero, toNat, _⟩
    · rw [first] at full
      cases full
    · rw [first] at first'
      obtain rfl := Option.some.inj first'
      have notNull : inodeNum ≠ 0 := by
        rintro rfl
        exact notZero toNat.symm
      rw [← toNat]
      exact insideArea_iff.mp (inside inodeNum after run notNull).1
  · intro small inodeNum after run notNull
    rcases bitmapAllocInode_runs run with
      ⟨_, rfl, _⟩ | ⟨number, first, _, toNat, _⟩
    · exact absurd rfl notNull
    · have inside : inodeNum.toNat < maxInodes := by
        rw [toNat]
        exact small number first
      exact ⟨insideArea_iff.mpr inside, storedAlone_of_small inside⟩

/-! ## Many creations -/

/-- A number of inodes was created one after the other, and nobody references
an inode. -/
structure Created (count : Nat) (state : State) : Prop where
  reachable : creationSystem.Reachable state
  unlocked : state.lkIcache = false
  free : ∀ ip, (state.icache ip).ref = 0 ∧ (state.icache ip).slk = false
  bits : ∀ number, bitAt state.inodeBitmap number = decide (number ≤ count)

theorem Created.first
    {count : Nat} (created : Created count state)
    (small : count + 1 < dataBlocks) :
    firstClear state.inodeBitmap = some (count + 1) := by
  cases found : firstClear state.inodeBitmap with
  | none =>
      have set := firstClear_eq_none found small
      rw [created.bits, decide_eq_true_eq] at set
      omega
  | some number =>
      obtain ⟨_, clear, before⟩ := firstClear_eq_some found
      rw [created.bits, decide_eq_false_iff_not] at clear
      have least : ¬count + 1 < number := by
        intro smaller
        have set := before (count + 1) smaller
        rw [created.bits, decide_eq_true_eq] at set
        omega
      have exact : number = count + 1 := by omega
      rw [exact]

/-- One more inode is created, and its reference is given back. -/
theorem Created.next
    {count : Nat} (created : Created count state)
    (small : count + 1 < dataBlocks) :
    ∃ final, Created (count + 1) final := by
  have idle := (numbering_of_reachable created.reachable).idle
  obtain ⟨ip, middle, create⟩ := inodeCreate_total (created.first small)
    (Nat.succ_ne_zero count) idle created.unlocked created.free ftFile 0 0
  have reached := created.reachable.step trivial (.create create)
  rcases inodeCreate_runs create with ⟨_, none, _⟩ |
    ⟨number, inodeNum, slot, found, first, _, toNat, same, alloc, _, _, rfl⟩
  · cases none
  · obtain rfl := Option.some.inj same
    obtain rfl : count + 1 = number :=
      Option.some.inj ((created.first small).symm.trans first)
    obtain ⟨disk, _, lock⟩ := inodeAlloc_frame alloc
    let after := (found.setInode ip ⟨newDinode ftFile 0 0, inodeNum,
      (found.icache ip).ref, true, false⟩).storeDinode inodeNum
        (newDinode ftFile 0 0)
    have slot : after.icache ip = ⟨newDinode ftFile 0 0, inodeNum,
        (found.icache ip).ref, true, false⟩ :=
      Function.update_self _ _ _
    have others : ∀ other, other ≠ ip →
        after.icache other = state.icache other := by
      intro other differs
      have kept : after.icache other = found.icache other :=
        Function.update_of_ne differs _ _
      rw [kept]
      rcases inodeAlloc_runs alloc with ⟨_, rfl⟩ | ⟨_, _, rfl⟩ <;>
        exact Function.update_of_ne differs _ _
    have single : (found.icache ip).ref = 1 := by
      rcases inodeAlloc_runs alloc with ⟨_, rfl⟩ | ⟨_, _, rfl⟩
      · rw [State.setInode_icache, Function.update_self, Inode.setRef_ref,
          State.setDisk_icache, (created.free ip).1]
        rfl
      · rw [State.setInode_icache, Function.update_self]
    have free := @inodeFree_total after ip (lock.trans created.unlocked)
      (fun _ => by
        rw [slot]
        exact (by decide : (1 : UInt16) ≠ 0))
    refine ⟨_, reached.step trivial (.free free), lock.trans created.unlocked,
      fun other => ?_, fun number => ?_⟩
    · by_cases isNew : other = ip
      · subst isNew
        rw [State.setInode_icache, Function.update_self, slot]
        refine ⟨?_, rfl⟩
        rw [Inode.setRef_ref, single]
        rfl
      · rw [State.setInode_icache, Function.update_of_ne isNew,
          others other isNew]
        exact created.free other
    · have bitmap : after.inodeBitmap = found.disk 1 := storeDinode_bitmap _ _
      have same : State.inodeBitmap (after.setInode ip
          ((after.icache ip).setRef ((after.icache ip).ref - 1))) =
          found.disk 1 := bitmap
      rw [same, disk, State.setDisk_disk, Function.update_self, bitAt_setBit,
        created.bits, ← Bool.decide_or, decide_eq_decide]
      omega

theorem created_zero : Created 0 (mkfsState zeroBlock) := by
  refine ⟨.init ⟨_, rfl⟩, rfl, fun _ => ⟨rfl, rfl⟩, fun number => ?_⟩
  show bitAt firstBitmap number = _
  unfold firstBitmap
  rw [bitAt_setBit]
  have clear : bitAt zeroBlock number = false := by
    simp [bitAt, zeroBlock]
  rw [clear, Bool.or_false, decide_eq_decide]
  omega

/-- Any number of inodes that the bitmap has bits for can be created. -/
theorem created (count : Nat) (small : count < dataBlocks) :
    ∃ state, Created count state := by
  induction count with
  | zero => exact ⟨_, created_zero⟩
  | succ count inductionHypothesis =>
      obtain ⟨state, created⟩ := inductionHypothesis (Nat.lt_of_succ_lt small)
      exact created.next small

/-- After 2047 creations the next number is 2048, whose block is the bitmap of
data blocks. -/
theorem inodeNumbers_leave_area :
    ¬∀ state, creationSystem.Reachable state → NextInside state := by
  intro all
  obtain ⟨state, created⟩ := created 2047 (by decide)
  have first := created.first (by decide)
  have idle := (numbering_of_reachable created.reachable).idle
  obtain ⟨ip, final, create⟩ := inodeCreate_total first (by decide) idle
    created.unlocked created.free ftFile 0 0
  simp only [inodeCreate, Program.runs_bind] at create
  obtain ⟨inodeNum, middle, bitmap, rest⟩ := create
  rcases bitmapAllocInode_runs bitmap with
    ⟨full, _⟩ | ⟨number, first', notZero, toNat, _⟩
  · rw [first] at full
    cases full
  · have isNext : 2047 + 1 = number :=
      Option.some.inj (first.symm.trans first')
    have notNull : inodeNum ≠ 0 := by
      rintro rfl
      exact notZero toNat.symm
    have small := insideArea_iff.mp
      (all state created.reachable inodeNum middle bitmap notNull).1
    have size : maxInodes = 2048 := rfl
    omega

/-- The first number on a fresh image is inside the inode area. -/
theorem nextInside_mkfsState : NextInside (mkfsState zeroBlock) := by
  refine (nextInside_iff created_zero.reachable).mpr fun number first => ?_
  have isFirst := created_zero.first (by decide)
  rw [first] at isFirst
  rw [Option.some.inj isFirst]
  decide

end Fs
end WhuOs
