import WhuOs.Fs.Mkfs
import WhuOs.Fs.Returns
import WhuOs.Library.Allocator

/-!
# Bitmaps as sets

The calls of `bitmap.c` act on the bits that are set like an allocator of
numbers below 8192 whose number 0 is reserved.
-/

namespace WhuOs
namespace Fs

open Library
open Program (Runs)

variable {state middle final : State}

/-! ## Bits that are set -/

/-- The numbers of the bits that are set in a bitmap. -/
def takenBits (data : Block) : Finset Nat :=
  (Finset.range dataBlocks).filter fun number => bitAt data number

theorem mem_takenBits {data : Block} {number : Nat} :
    number ∈ takenBits data ↔
      number < dataBlocks ∧ bitAt data number = true := by
  unfold takenBits
  rw [Finset.mem_filter, Finset.mem_range]

theorem takenBits_setBit
    {data : Block} {number : Nat} (bound : number < dataBlocks) :
    takenBits (setBit data number) = insert number (takenBits data) := by
  ext other
  rw [Finset.mem_insert, mem_takenBits, mem_takenBits, bitAt_setBit,
    Bool.or_eq_true, decide_eq_true_eq]
  constructor
  · rintro ⟨small, same | set⟩
    · exact Or.inl same
    · exact Or.inr ⟨small, set⟩
  · rintro (rfl | ⟨small, set⟩)
    · exact ⟨bound, Or.inl rfl⟩
    · exact ⟨small, Or.inr set⟩

theorem takenBits_clearBit (data : Block) (number : Nat) :
    takenBits (clearBit data number) = (takenBits data).erase number := by
  ext other
  rw [Finset.mem_erase, mem_takenBits, mem_takenBits, bitAt_clearBit,
    Bool.and_eq_true, decide_eq_true_eq]
  tauto

/-- Setting a clear bit and clearing it again. -/
theorem clearBit_setBit
    {data : Block} {number : Nat} (clear : bitAt data number = false) :
    clearBit (setBit data number) number = data := by
  have small := Nat.mod_lt number (show 8 > 0 by decide)
  rw [bitAt_eq_testBit] at clear
  funext index
  unfold clearBit setBit
  by_cases same : index = number / 8
  · subst same
    rw [Function.update_self, Function.update_self]
    apply UInt8.toNat_inj.mp
    apply Nat.eq_of_testBit_eq
    intro bit
    rw [UInt8.toNat_and, UInt8.toNat_or, Nat.testBit_and, Nat.testBit_or,
      mask_toNat small, Nat.testBit_two_pow]
    by_cases inside : bit < 8
    · rw [not_mask_testBit small inside]
      by_cases sameBit : bit = number % 8
      · subst sameBit
        simp [clear]
      · have differs : number % 8 ≠ bit := Ne.symm sameBit
        simp [sameBit, differs]
    · have large : 2 ^ 8 ≤ 2 ^ bit :=
        Nat.pow_le_pow_right (by decide) (by omega)
      have differs : number % 8 ≠ bit := by omega
      rw [Nat.testBit_lt_two_pow
        (Nat.lt_of_lt_of_le (data (number / 8)).toNat_lt large)]
      simp [differs]
  · rw [Function.update_of_ne same, Function.update_of_ne same]

/-- The first clear bit of a bitmap. -/
def LeastClear (data : Block) (number : Nat) : Prop :=
  number < dataBlocks ∧ bitAt data number = false ∧
    ∀ other < number, bitAt data other = true

theorem LeastClear.step
    {data : Block} {number : Nat} (least : LeastClear data number) :
    Allocator.Step dataBlocks (takenBits data) (.alloc (some number))
      (takenBits (setBit data number)) := by
  obtain ⟨bound, clear, before⟩ := least
  rw [takenBits_setBit bound]
  refine .least bound (fun taken => ?_) fun other smaller =>
    mem_takenBits.mpr ⟨by omega, before other smaller⟩
  rw [(mem_takenBits.mp taken).2] at clear
  cases clear

/-! ## Calls -/

/-- The calls of `bitmap.c`. -/
inductive BitmapCall
  | allocBlock
  | freeBlock (blockNum : UInt32)
  | allocInode
  | freeInode (inodeNum : UInt16)

/-- A call with its result. -/
inductive BitmapEvent
  | allocBlock (result : UInt32)
  | freeBlock (blockNum : UInt32)
  | allocInode (result : UInt16)
  | freeInode (inodeNum : UInt16)

/-- The call of an event. -/
def BitmapEvent.call : BitmapEvent → BitmapCall
  | allocBlock _ => .allocBlock
  | freeBlock blockNum => .freeBlock blockNum
  | allocInode _ => .allocInode
  | freeInode inodeNum => .freeInode inodeNum

/-- A call that returns. -/
inductive BitmapStep : State → BitmapEvent → State → Prop
  | allocBlock {before after : State} {result : UInt32} :
      bitmapAllocBlock.Runs before result after →
      BitmapStep before (.allocBlock result) after
  | freeBlock {before after : State} {blockNum : UInt32} :
      (bitmapFreeBlock blockNum).Runs before () after →
      BitmapStep before (.freeBlock blockNum) after
  | allocInode {before after : State} {result : UInt16} :
      bitmapAllocInode.Runs before result after →
      BitmapStep before (.allocInode result) after
  | freeInode {before after : State} {inodeNum : UInt16} :
      (bitmapFreeInode inodeNum).Runs before () after →
      BitmapStep before (.freeInode inodeNum) after

/-- A sequence of calls. -/
inductive BitmapRun : State → List BitmapEvent → State → Prop
  | nil {state : State} : BitmapRun state [] state
  | cons {before middle after : State} {event : BitmapEvent}
      {events : List BitmapEvent} :
      BitmapStep before event middle → BitmapRun middle events after →
      BitmapRun before (event :: events) after

/-- The bitmaps can be read, and their first bits are set. -/
structure BitmapsReady (state : State) : Prop where
  blocks : dataBitmapStart ∉ state.held
  inodes : inodeBitmapStart ∉ state.held
  room : state.held.length < Buf.nBlockBuf
  firstBlock : bitAt state.dataBitmap 0 = true
  firstInode : bitAt state.inodeBitmap 0 = true

/-- What a call does. -/
def BitmapEvent.Exact (before : State) : BitmapEvent → State → Prop
  | allocBlock result, after =>
      (result = 0 ∧ after = before ∧
        ∀ number < dataBlocks, bitAt before.dataBitmap number = true) ∨
      ∃ number, result.toNat = 131 + number ∧
        LeastClear before.dataBitmap number ∧
        after = before.setDisk 130 (setBit before.dataBitmap number)
  | freeBlock blockNum, after =>
      ((blockNum.toNat ≤ 131 ∨ 131 + dataBlocks ≤ blockNum.toNat) ∧
        after = before) ∨
      ∃ number, number ≠ 0 ∧ number < dataBlocks ∧
        blockNum.toNat = 131 + number ∧
        after = before.setDisk 130 (clearBit before.dataBitmap number)
  | allocInode result, after =>
      (result = 0 ∧ after = before ∧
        ∀ number < dataBlocks, bitAt before.inodeBitmap number = true) ∨
      ∃ number, result.toNat = number ∧ number ≠ 0 ∧
        LeastClear before.inodeBitmap number ∧
        after = before.setDisk 1 (setBit before.inodeBitmap number)
  | freeInode inodeNum, after =>
      ((inodeNum.toNat = 0 ∨ dataBlocks ≤ inodeNum.toNat) ∧
        after = before) ∨
      (inodeNum.toNat ≠ 0 ∧ inodeNum.toNat < dataBlocks ∧
        after = before.setDisk 1
          (clearBit before.inodeBitmap inodeNum.toNat))

theorem bitmapFreeInode_runs
    {inodeNum : UInt16} {result : Unit}
    (run : (bitmapFreeInode inodeNum).Runs state result final) :
    BitmapEvent.Exact state (.freeInode inodeNum) final := by
  have sizes : blockSize = 1024 ∧ dataBlocks = 8192 := ⟨rfl, rfl⟩
  have number : inodeNum.toUInt32.toNat = inodeNum.toNat :=
    UInt16.toNat_toUInt32 _
  rcases bitmapUnset_runs run with ⟨outside, rfl⟩ | ⟨notZero, small, rfl⟩
  · refine Or.inl ⟨?_, rfl⟩
    rcases outside with zero | outside
    · have zero := congrArg UInt32.toNat zero
      rw [number, UInt32.toNat_zero] at zero
      exact Or.inl zero
    · rw [number] at outside
      exact Or.inr (by omega)
  · rw [number] at small ⊢
    refine Or.inr ⟨fun zero => notZero ?_, by omega, rfl⟩
    apply UInt32.toNat_inj.mp
    rw [number, zero, UInt32.toNat_zero]

theorem BitmapStep.exact
    {event : BitmapEvent} (step : BitmapStep state event final) :
    event.Exact state final := by
  cases step with
  | allocBlock run =>
      rcases bitmapAllocBlock_runs run with
        ⟨full, rfl, rfl⟩ | ⟨number, found, _, toNat, rfl⟩
      · exact Or.inl ⟨rfl, rfl, fun _ => firstClear_eq_none full⟩
      · exact Or.inr ⟨number, toNat, firstClear_eq_some found, rfl⟩
  | freeBlock run =>
      rcases bitmapFreeBlock_runs run with
        same | ⟨number, notZero, toNat, bound, rfl⟩
      · exact Or.inl same
      · exact Or.inr ⟨number, notZero, bound, toNat, rfl⟩
  | allocInode run =>
      rcases bitmapAllocInode_runs run with
        ⟨full, rfl, rfl⟩ | ⟨number, found, notZero, toNat, rfl⟩
      · exact Or.inl ⟨rfl, rfl, fun _ => firstClear_eq_none full⟩
      · exact Or.inr ⟨number, toNat, notZero, firstClear_eq_some found, rfl⟩
  | freeInode run => exact bitmapFreeInode_runs run

/-- Calls return as long as the first bits are set. -/
theorem BitmapsReady.step
    (ready : BitmapsReady state) (call : BitmapCall) :
    ∃ event after, event.call = call ∧ BitmapStep state event after := by
  cases call with
  | allocBlock =>
      obtain ⟨result, after, run⟩ :=
        bitmapAllocBlock_total ready.blocks ready.room ready.firstBlock
      exact ⟨.allocBlock result, after, rfl, .allocBlock run⟩
  | freeBlock blockNum =>
      obtain ⟨after, run⟩ :=
        bitmapFreeBlock_total ready.blocks ready.room blockNum
      exact ⟨.freeBlock blockNum, after, rfl, .freeBlock run⟩
  | allocInode =>
      obtain ⟨result, after, run⟩ :=
        bitmapAllocInode_total ready.inodes ready.room ready.firstInode
      exact ⟨.allocInode result, after, rfl, .allocInode run⟩
  | freeInode inodeNum =>
      obtain ⟨after, run⟩ :=
        bitmapFreeInode_total ready.inodes ready.room inodeNum
      exact ⟨.freeInode inodeNum, after, rfl, .freeInode run⟩

/-! ## The two allocators -/

/-- The two bitmaps. -/
inductive Bitmap
  | blocks
  | inodes

/-- The contents of a bitmap. -/
def Bitmap.data : Bitmap → State → Block
  | blocks => State.dataBitmap
  | inodes => State.inodeBitmap

/-- An event as a call of the allocator behind a bitmap. -/
def Bitmap.view : Bitmap → BitmapEvent → Option Allocator.Event
  | blocks, .allocBlock result =>
      some (.alloc (if result = 0 then none else some (result.toNat - 131)))
  | blocks, .freeBlock blockNum => some (.free (blockNum.toNat - 131))
  | inodes, .allocInode result =>
      some (.alloc (if result = 0 then none else some result.toNat))
  | inodes, .freeInode inodeNum => some (.free inodeNum.toNat)
  | _, _ => none

/-- All numbers below the bound are taken in a full bitmap. -/
theorem full_step
    {data : Block}
    (full : ∀ number < dataBlocks, bitAt data number = true) :
    Allocator.Step dataBlocks (takenBits data) (.alloc none)
      (takenBits data) :=
  .full fun number bound => mem_takenBits.mpr ⟨bound, full number bound⟩

/-- Giving back a number that is not below the bound. -/
theorem outside_step
    {data : Block} {number : Nat} (outside : dataBlocks ≤ number) :
    Allocator.Step dataBlocks (takenBits data) (.free number)
      (takenBits data) := by
  have notTaken : number ∉ takenBits data := fun taken =>
    absurd (mem_takenBits.mp taken).1 (Nat.not_lt.mpr outside)
  have size : dataBlocks = 8192 := rfl
  have step : Allocator.Step dataBlocks (takenBits data) (.free number)
      ((takenBits data).erase number) := .free (by omega)
  rwa [Finset.erase_eq_of_notMem notTaken] at step

/-- Giving back a number below the bound. -/
theorem clear_step
    {data : Block} {number : Nat} (notZero : number ≠ 0) :
    Allocator.Step dataBlocks (takenBits data) (.free number)
      (takenBits (clearBit data number)) := by
  rw [takenBits_clearBit]
  exact .free notZero

theorem dataBitmap_setDisk (data : Block) :
    (state.setDisk 130 data).dataBitmap = data := by
  unfold State.dataBitmap
  rw [State.setDisk_disk, Function.update_self]

theorem inodeBitmap_setDisk (data : Block) :
    (state.setDisk 1 data).inodeBitmap = data := by
  unfold State.inodeBitmap
  rw [State.setDisk_disk, Function.update_self]

theorem dataBitmap_setDisk_inode (data : Block) :
    (state.setDisk 1 data).dataBitmap = state.dataBitmap :=
  Function.update_of_ne (show 130 ≠ 1 by decide) data state.disk

theorem inodeBitmap_setDisk_data (data : Block) :
    (state.setDisk 130 data).inodeBitmap = state.inodeBitmap :=
  Function.update_of_ne (show 1 ≠ 130 by decide) data state.disk

/-- A call is a call of one allocator and leaves the other alone. -/
theorem BitmapEvent.Exact.view
    {event : BitmapEvent} (exact : event.Exact state final)
    (bitmap : Bitmap) :
    match bitmap.view event with
    | some call => Allocator.Step dataBlocks (takenBits (bitmap.data state))
        call (takenBits (bitmap.data final))
    | none => bitmap.data final = bitmap.data state := by
  cases event with
  | allocBlock result =>
      rcases exact with ⟨rfl, rfl, full⟩ | ⟨number, toNat, least, rfl⟩
      · cases bitmap with
        | blocks => exact full_step full
        | inodes => rfl
      · have notZero : result ≠ 0 := by
          rintro rfl
          rw [UInt32.toNat_zero] at toNat
          omega
        cases bitmap with
        | blocks =>
            simp only [Bitmap.view, if_neg notZero, toNat,
              Nat.add_sub_cancel_left, Bitmap.data, dataBitmap_setDisk]
            exact least.step
        | inodes => exact inodeBitmap_setDisk_data _
  | freeBlock blockNum =>
      rcases exact with
        ⟨outside, rfl⟩ | ⟨number, notZero, _, toNat, rfl⟩
      · cases bitmap with
        | blocks =>
            simp only [Bitmap.view]
            rcases outside with below | beyond
            · rw [Nat.sub_eq_zero_of_le below]
              exact .reserved
            · exact outside_step (by omega)
        | inodes => rfl
      · cases bitmap with
        | blocks =>
            simp only [Bitmap.view, toNat, Nat.add_sub_cancel_left,
              Bitmap.data, dataBitmap_setDisk]
            exact clear_step notZero
        | inodes => exact inodeBitmap_setDisk_data _
  | allocInode result =>
      rcases exact with ⟨rfl, rfl, full⟩ | ⟨number, toNat, notZero, least, rfl⟩
      · cases bitmap with
        | blocks => rfl
        | inodes => exact full_step full
      · have resultNotZero : result ≠ 0 := by
          rintro rfl
          exact notZero toNat.symm
        cases bitmap with
        | blocks => exact dataBitmap_setDisk_inode _
        | inodes =>
            simp only [Bitmap.view, if_neg resultNotZero, toNat, Bitmap.data,
              inodeBitmap_setDisk]
            exact least.step
  | freeInode inodeNum =>
      rcases exact with ⟨outside, rfl⟩ | ⟨notZero, _, rfl⟩
      · cases bitmap with
        | blocks => rfl
        | inodes =>
            simp only [Bitmap.view]
            rcases outside with zero | beyond
            · rw [zero]
              exact .reserved
            · exact outside_step beyond
      · cases bitmap with
        | blocks => exact dataBitmap_setDisk_inode _
        | inodes =>
            simp only [Bitmap.view, Bitmap.data, inodeBitmap_setDisk]
            exact clear_step notZero

/-- Calls lock and release the same buffers. -/
theorem BitmapEvent.Exact.held
    {event : BitmapEvent} (exact : event.Exact state final) :
    final.held = state.held := by
  cases event with
  | allocBlock result =>
      rcases exact with ⟨_, rfl, _⟩ | ⟨_, _, _, rfl⟩ <;> rfl
  | freeBlock blockNum =>
      rcases exact with ⟨_, rfl⟩ | ⟨_, _, _, _, rfl⟩ <;> rfl
  | allocInode result =>
      rcases exact with ⟨_, rfl, _⟩ | ⟨_, _, _, _, rfl⟩ <;> rfl
  | freeInode inodeNum =>
      rcases exact with ⟨_, rfl⟩ | ⟨_, _, rfl⟩ <;> rfl

theorem mem_first {data : Block} :
    0 ∈ takenBits data ↔ bitAt data 0 = true := by
  rw [mem_takenBits]
  exact and_iff_right (by decide)

/-- A sequence of calls is a sequence of calls of each allocator. -/
theorem BitmapRun.view
    {events : List BitmapEvent} (run : BitmapRun state events final)
    (bitmap : Bitmap) :
    Allocator.Run dataBlocks (takenBits (bitmap.data state))
      (events.filterMap bitmap.view) (takenBits (bitmap.data final)) := by
  induction run with
  | nil => exact .nil
  | cons step _ inductionHypothesis =>
      have view := step.exact.view bitmap
      rw [List.filterMap_cons]
      split at view
      · next call isCall =>
        rw [isCall]
        exact .cons view inductionHypothesis
      · next isNone =>
        rw [isNone, ← view]
        exact inductionHypothesis

theorem BitmapRun.held
    {events : List BitmapEvent} (run : BitmapRun state events final) :
    final.held = state.held := by
  induction run with
  | nil => rfl
  | cons step _ inductionHypothesis =>
      exact inductionHypothesis.trans step.exact.held

/-- The first bits stay set. -/
theorem BitmapRun.ready
    {events : List BitmapEvent} (run : BitmapRun state events final)
    (ready : BitmapsReady state) : BitmapsReady final := by
  refine ⟨?_, ?_, ?_, ?_, ?_⟩
  · rw [run.held]
    exact ready.blocks
  · rw [run.held]
    exact ready.inodes
  · rw [run.held]
    exact ready.room
  · exact mem_first.mp ((run.view .blocks).zero_mem
      (mem_first.mpr ready.firstBlock))
  · exact mem_first.mp ((run.view .inodes).zero_mem
      (mem_first.mpr ready.firstInode))

/-! ## Sequences of calls -/

/-- An event that hands out a number other than 0. -/
theorem BitmapRun.freed_between
    {bitmap : Bitmap} {event : BitmapEvent} {number : Nat}
    {earlier between later : List BitmapEvent}
    (isAlloc : bitmap.view event = some (.alloc (some number)))
    (run : BitmapRun state
      (earlier ++ event :: (between ++ event :: later)) final) :
    ∃ free ∈ between, bitmap.view free = some (.free number) := by
  have view := run.view bitmap
  rw [List.filterMap_append, List.filterMap_cons, isAlloc,
    List.filterMap_append, List.filterMap_cons, isAlloc] at view
  exact List.mem_filterMap.mp view.freed_between

/-- The number of a result is handed out by the allocator behind the bitmap,
which never hands out number 0. -/
theorem BitmapRun.number_ne_zero
    {bitmap : Bitmap} {event : BitmapEvent} {number : Nat}
    {earlier later : List BitmapEvent} (ready : BitmapsReady state)
    (isAlloc : bitmap.view event = some (.alloc (some number)))
    (run : BitmapRun state (earlier ++ event :: later) final) :
    number ≠ 0 := by
  have view := run.view bitmap
  rw [List.filterMap_append, List.filterMap_cons, isAlloc] at view
  obtain ⟨middle, first, rest⟩ := Allocator.Run.append_iff.mp view
  have reserved : 0 ∈ takenBits (bitmap.data state) := by
    cases bitmap with
    | blocks => exact mem_first.mpr ready.firstBlock
    | inodes => exact mem_first.mpr ready.firstInode
  rintro rfl
  cases rest with
  | cons step _ => exact step.alloc_iff.2.1 (first.zero_mem reserved)

/-- Between two allocations of a block it is freed. -/
theorem BitmapRun.block_freed_between
    {blockNum : UInt32} {earlier between later : List BitmapEvent}
    (ready : BitmapsReady state) (notZero : blockNum ≠ 0)
    (run : BitmapRun state (earlier ++ .allocBlock blockNum ::
      (between ++ .allocBlock blockNum :: later)) final) :
    .freeBlock blockNum ∈ between := by
  have isAlloc : Bitmap.blocks.view (.allocBlock blockNum) =
      some (.alloc (some (blockNum.toNat - 131))) := by
    simp only [Bitmap.view, if_neg notZero]
  have number := run.number_ne_zero ready isAlloc
  obtain ⟨free, member, isFree⟩ := run.freed_between isAlloc
  cases free with
  | freeBlock other =>
      simp only [Bitmap.view, Option.some.injEq,
        Allocator.Event.free.injEq] at isFree
      have same : other = blockNum := by
        apply UInt32.toNat_inj.mp
        omega
      rwa [← same]
  | allocBlock result => simp [Bitmap.view] at isFree
  | allocInode result => simp [Bitmap.view] at isFree
  | freeInode other => simp [Bitmap.view] at isFree

/-- Between two allocations of an inode number it is freed. -/
theorem BitmapRun.inode_freed_between
    {inodeNum : UInt16} {earlier between later : List BitmapEvent}
    (notZero : inodeNum ≠ 0)
    (run : BitmapRun state (earlier ++ .allocInode inodeNum ::
      (between ++ .allocInode inodeNum :: later)) final) :
    .freeInode inodeNum ∈ between := by
  have isAlloc : Bitmap.inodes.view (.allocInode inodeNum) =
      some (.alloc (some inodeNum.toNat)) := by
    simp only [Bitmap.view, if_neg notZero]
  obtain ⟨free, member, isFree⟩ := run.freed_between isAlloc
  cases free with
  | freeInode other =>
      simp only [Bitmap.view, Option.some.injEq,
        Allocator.Event.free.injEq] at isFree
      rwa [← UInt16.toNat_inj.mp isFree]
  | allocBlock result => simp [Bitmap.view] at isFree
  | freeBlock other => simp [Bitmap.view] at isFree
  | allocInode result => simp [Bitmap.view] at isFree

theorem setDisk_setDisk (index : Nat) (data data' : Block) :
    (state.setDisk index data).setDisk index data' =
      state.setDisk index data' := by
  simp only [State.setDisk, Function.update_idem]

theorem setDisk_self (index : Nat) :
    state.setDisk index (state.disk index) = state := by
  simp only [State.setDisk, Function.update_eq_self]

/-- Allocating a block and freeing it restores the state. -/
theorem BitmapStep.block_restored
    {blockNum : UInt32}
    (alloc : BitmapStep state (.allocBlock blockNum) middle)
    (free : BitmapStep middle (.freeBlock blockNum) final)
    (first : bitAt state.dataBitmap 0 = true) : final = state := by
  rcases alloc.exact with ⟨rfl, rfl, _⟩ | ⟨number, toNat, least, rfl⟩
  · rcases free.exact with ⟨_, rfl⟩ | ⟨number, _, _, toNat, _⟩
    · rfl
    · rw [UInt32.toNat_zero] at toNat
      omega
  · have notZero : number ≠ 0 := by
      rintro rfl
      rw [least.2.1] at first
      cases first
    have bound := least.1
    rcases free.exact with ⟨outside, _⟩ | ⟨number', _, _, toNat', rfl⟩
    · omega
    · obtain rfl : number' = number := by omega
      rw [dataBitmap_setDisk, setDisk_setDisk, clearBit_setBit least.2.1]
      exact setDisk_self 130

/-- Allocating an inode number and freeing it restores the state. -/
theorem BitmapStep.inode_restored
    {inodeNum : UInt16}
    (alloc : BitmapStep state (.allocInode inodeNum) middle)
    (free : BitmapStep middle (.freeInode inodeNum) final) :
    final = state := by
  rcases alloc.exact with ⟨rfl, rfl, _⟩ | ⟨number, toNat, notZero, least, rfl⟩
  · rcases free.exact with ⟨_, rfl⟩ | ⟨notZero, _, _⟩
    · rfl
    · exact absurd rfl notZero
  · have bound := least.1
    rcases free.exact with ⟨outside, _⟩ | ⟨_, _, rfl⟩
    · omega
    · rw [toNat, inodeBitmap_setDisk, setDisk_setDisk,
        clearBit_setBit least.2.1]
      exact setDisk_self 1

/-- In every sequence of calls on bitmaps whose first bits are set, the calls
return, each bitmap is an allocator of numbers below 8192, nothing is handed out
twice without being freed in between, and freeing what was just allocated
restores the bitmap. -/
theorem bitmaps_are_sets
    {start final : State} {events : List BitmapEvent}
    (ready : BitmapsReady start) (run : BitmapRun start events final) :
    BitmapsReady final ∧
    (∀ call, ∃ event after, event.call = call ∧
      BitmapStep final event after) ∧
    (∀ event after, BitmapStep final event after →
      event.Exact final after) ∧
    (∀ bitmap : Bitmap, Allocator.Run dataBlocks
      (takenBits (bitmap.data start)) (events.filterMap bitmap.view)
      (takenBits (bitmap.data final))) ∧
    (∀ blockNum, blockNum ≠ 0 → ∀ earlier between later,
      events = earlier ++ .allocBlock blockNum ::
        (between ++ .allocBlock blockNum :: later) →
      .freeBlock blockNum ∈ between) ∧
    (∀ inodeNum, inodeNum ≠ 0 → ∀ earlier between later,
      events = earlier ++ .allocInode inodeNum ::
        (between ++ .allocInode inodeNum :: later) →
      .freeInode inodeNum ∈ between) ∧
    (∀ blockNum middle after, BitmapStep final (.allocBlock blockNum) middle →
      BitmapStep middle (.freeBlock blockNum) after → after = final) ∧
    (∀ inodeNum middle after, BitmapStep final (.allocInode inodeNum) middle →
      BitmapStep middle (.freeInode inodeNum) after → after = final) := by
  have later := run.ready ready
  refine ⟨later, later.step, fun event after step => step.exact, run.view,
    ?_, ?_, ?_, ?_⟩
  · rintro blockNum notZero earlier between rest rfl
    exact run.block_freed_between ready notZero
  · rintro inodeNum notZero earlier between rest rfl
    exact run.inode_freed_between notZero
  · intro blockNum middle after alloc free
    exact alloc.block_restored free later.firstBlock
  · intro inodeNum middle after alloc free
    exact alloc.inode_restored free

theorem bitmapsReady_mkfsState (junk : Block) :
    BitmapsReady (mkfsState junk) := by
  have first : bitAt firstBitmap 0 = true := by decide +kernel
  exact ⟨List.not_mem_nil, List.not_mem_nil, Nat.succ_pos 63, first, first⟩

/-- On a fresh image a block is allocated and freed. -/
theorem bitmaps_are_sets_freshImage :
    ∃ middle final,
      BitmapStep (mkfsState zeroBlock) (.allocBlock 132) middle ∧
      BitmapStep middle (.freeBlock 132) final ∧ BitmapsReady final := by
  have ready := bitmapsReady_mkfsState zeroBlock
  obtain ⟨result, middle, alloc⟩ := bitmapAllocBlock_total ready.blocks
    ready.room ready.firstBlock
  have isFirst : result = 132 := by
    rcases bitmapAllocBlock_runs alloc with ⟨full, _⟩ | ⟨number, found, _,
      toNat, _⟩
    · exact absurd full (by decide +kernel)
    · have second : firstClear (mkfsState zeroBlock).dataBitmap = some 1 := by
        decide +kernel
      rw [second] at found
      obtain rfl := Option.some.inj found
      exact UInt32.toNat_inj.mp toNat
  subst isFirst
  have first : BitmapStep (mkfsState zeroBlock) (.allocBlock 132) middle :=
    .allocBlock alloc
  obtain ⟨event, final, isFree, second⟩ := (bitmaps_are_sets ready
    (.cons first .nil)).2.1 (.freeBlock 132)
  cases event with
  | freeBlock blockNum =>
      obtain rfl : blockNum = 132 := by
        simpa [BitmapEvent.call] using isFree
      exact ⟨middle, final, first, second,
        (bitmaps_are_sets ready (.cons first (.cons second .nil))).1⟩
  | allocBlock result => cases isFree
  | allocInode result => cases isFree
  | freeInode inodeNum => cases isFree

end Fs
end WhuOs
