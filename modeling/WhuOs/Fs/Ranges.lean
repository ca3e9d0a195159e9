import WhuOs.Fs.Lookups

/-!
# Offsets and lengths

The range checks of `inode_read_data` and `inode_write_data` add an offset and a
length as 32-bit numbers.  Where the sum does not wrap they are exact, and the
loops look for no block that an inode cannot have.
-/

namespace WhuOs
namespace Fs

open Library
open Library.Bytes
open Library.Forest (Tree)
open Program (Runs Avoids)

variable {state final : State}

/-! ## Blocks that exist -/

/-- A numbered block of the inode in a slot. -/
def State.dataBlock (state : State) (ip : Slot) (bn : Nat) : UInt32 :=
  state.blockAt ((state.icache ip).data.addrs (placeOf bn).1) (placeOf bn).2

/-- The blocks of an inode are data blocks that are taken, and each has one
place. -/
def WellFormed (state : State) (ip : Slot) : Prop :=
  Forest.Sound 0 addrLevel (state.icache ip).data.addrs state.child
    state.Marked

/-- The search for a block of an inode finds it if it exists. -/
theorem WellFormed.meetsAt_eq
    {ip : Slot} {bn : UInt32} (wellFormed : WellFormed state ip)
    (bound : bn.toNat < maxBlocks) :
    state.meetsAt ip bn = if state.dataBlock ip bn.toNat = 0 then .hole
      else .found (state.dataBlock ip bn.toNat) := by
  obtain ⟨below, same, small, place⟩ := locateIn_eq (fun k below level =>
    state.meets ((state.icache ip).data.addrs k) below level []) .stops bound
  unfold State.meetsAt State.dataBlock
  rw [same, congrArg Prod.snd place]
  generalize (placeOf bn.toNat).1 = k at small ⊢
  have room : ([] : List UInt32).length + addrLevel k < Buf.nBlockBuf := by
    rw [List.length_nil, Nat.zero_add]
    exact Nat.lt_trans (addrLevel_lt k) (by decide)
  exact State.meets_eq (addrLevel_lt k) small
    (Forest.Sound.tree wellFormed k) nofun room

/-- Locating a block of an inode that exists changes nothing. -/
theorem inodeLocateBlock_present
    {ip : Slot} {bn : UInt32} (wellFormed : WellFormed state ip)
    (idle : state.held = []) (bound : bn.toNat < maxBlocks)
    (present : state.dataBlock ip bn.toNat ≠ 0) :
    (inodeLocateBlock ip bn).Runs state (state.dataBlock ip bn.toNat)
      state := by
  refine inodeLocateBlock_found idle ?_
  rw [wellFormed.meetsAt_eq bound, if_neg present]

/-! ## Reading -/

/-- The loop of a read of blocks that exist returns all bytes. -/
theorem readLoop_present
    {ip : Slot} {offset len total : UInt32} {dst : List UInt8} {fuel : Nat}
    (wellFormed : WellFormed state ip) (idle : state.held = [])
    (inside : total.toNat ≤ len.toNat)
    (enough : len.toNat - total.toNat ≤ fuel)
    (noWrap : offset.toNat + (len.toNat - total.toNat) ≤ inodeMaxSize)
    (present : ∀ bn, 1024 * bn < offset.toNat + (len.toNat - total.toNat) →
      state.dataBlock ip bn ≠ 0) :
    ∃ bytes, (readLoop ip offset len total dst fuel).Runs state bytes state ∧
      bytes.length = dst.length + (len.toNat - total.toNat) := by
  have sizes : inodeMaxSize = 67643392 ∧ maxBlocks = 66058 := ⟨rfl, rfl⟩
  induction fuel generalizing offset total dst with
  | zero =>
      exact ⟨dst, Program.runs_pure.mpr ⟨rfl, rfl⟩, by omega⟩
  | succ fuel inductionHypothesis =>
      by_cases more : total < len
      · have before := UInt32.lt_iff_toNat_lt.mp more
        have number := blockNumber_toNat offset
        have length : (pieceLength offset len total).toNat =
            piece offset.toNat (len.toNat - total.toNat) :=
          pieceLength_toNat more
        obtain ⟨_, advance, advance'⟩ := transfer_next more
          (show offset.toNat / 1024 < maxBlocks by omega)
        rw [← length] at advance advance'
        have fits : (pieceLength offset len total).toNat ≤
            len.toNat - total.toNat := by
          rw [length]
          exact Nat.min_le_right _ _
        have positive : 0 < (pieceLength offset len total).toNat := by
          rw [length]
          unfold piece
          omega
        have there := present (offset / 1024).toNat (by omega)
        have locate := inodeLocateBlock_present wellFormed idle
          (show (offset / 1024).toNat < maxBlocks by omega) there
        have marked : state.Marked (state.dataBlock ip
            (offset / 1024).toNat) :=
          wellFormed.marked _ _ (placeOf_length _).le there
        let next := dst ++
          (List.range (pieceLength offset len total).toNat).map fun index =>
            state.disk (diskIndex (state.dataBlock ip (offset / 1024).toNat))
              ((offset % 1024).toNat + index)
        have rest : ∃ bytes, (readLoop ip
            (offset + pieceLength offset len total) len
            (total + pieceLength offset len total) next fuel).Runs
              state bytes state ∧
            bytes.length = next.length + (len.toNat -
              (total + pieceLength offset len total).toNat) :=
          inductionHypothesis (by omega) (by omega) (by omega)
            (fun bn small => present bn (by omega))
        obtain ⟨bytes, run, count⟩ := rest
        refine ⟨bytes, ?_, ?_⟩
        · simp only [readLoop, if_pos more]
          rw [locate.bind_iff, bufRead_release idle marked]
          exact run
        · have grown : next.length =
              dst.length + (pieceLength offset len total).toNat := by
            rw [List.length_append, List.length_map, List.length_range]
          omega
      · have all := UInt32.le_iff_toNat_le.mp (UInt32.not_lt.mp more)
        refine ⟨dst, ?_, by omega⟩
        simp only [readLoop, if_neg more, Program.runs_pure, and_self]

/-- The length of the piece of a step is positive and what is left. -/
theorem pieceLength_bounds
    (offset : UInt32) {len total : UInt32} (more : total < len) :
    0 < (pieceLength offset len total).toNat ∧
      (pieceLength offset len total).toNat ≤ len.toNat - total.toNat ∧
      (total + pieceLength offset len total).toNat =
        total.toNat + (pieceLength offset len total).toNat := by
  have before := UInt32.lt_iff_toNat_lt.mp more
  have small := len.toNat_lt
  rw [UInt32.toNat_add, pieceLength_toNat more]
  unfold piece
  refine ⟨by omega, by omega, Nat.mod_eq_of_lt (by omega)⟩

/-- A read that returns has stored all it was asked for. -/
theorem readLoop_length
    {ip : Slot} {offset len total : UInt32} {dst result : List UInt8}
    {fuel : Nat} (enough : len.toNat - total.toNat ≤ fuel)
    (run : (readLoop ip offset len total dst fuel).Runs state result final) :
    result.length = dst.length + (len.toNat - total.toNat) := by
  induction fuel generalizing state offset total dst with
  | zero =>
      simp only [readLoop, Program.runs_pure] at run
      rw [← run.1]
      omega
  | succ fuel inductionHypothesis =>
      simp only [readLoop] at run
      split at run
      · next more =>
        simp only [Program.runs_bind] at run
        obtain ⟨_, _, _, _, _, _, _, _, _, rest⟩ := run
        obtain ⟨positive, fits, advance⟩ := pieceLength_bounds
          offset more
        have count := inductionHypothesis (by omega) rest
        rw [List.length_append, List.length_map, List.length_range] at count
        omega
      · next done =>
        have all := UInt32.le_iff_toNat_le.mp (UInt32.not_lt.mp done)
        rw [Program.runs_pure] at run
        rw [← run.1]
        omega

/-- A write that returns counts all it was asked for. -/
theorem writeLoop_count
    {ip : Slot} {offset len total : UInt32} {src : Bytes}
    {result : UInt32 × UInt32} {fuel : Nat}
    (inside : total.toNat ≤ len.toNat)
    (enough : len.toNat - total.toNat ≤ fuel)
    (run : (writeLoop ip offset len total src fuel).Runs state result final) :
    result.2 = len := by
  induction fuel generalizing state offset total with
  | zero =>
      simp only [writeLoop, Program.runs_pure] at run
      rw [← run.1]
      show total = len
      exact UInt32.toNat_inj.mp (by omega)
  | succ fuel inductionHypothesis =>
      simp only [writeLoop] at run
      split at run
      · next more =>
        simp only [Program.runs_bind] at run
        obtain ⟨_, _, _, _, _, _, _, _, _, _, _, _, rest⟩ := run
        obtain ⟨positive, fits, advance⟩ := pieceLength_bounds
          offset more
        exact inductionHypothesis (by omega) (by omega) rest
      · next done =>
        have all := UInt32.le_iff_toNat_le.mp (UInt32.not_lt.mp done)
        rw [Program.runs_pure] at run
        rw [← run.1]
        show total = len
        exact UInt32.toNat_inj.mp (by omega)

/-! ## The panic on a block number -/

/-- The message of the panic on a block number that no inode has. -/
abbrev tooLarge : String := "inode_locate_block: bn too large"

section Avoids

theorem bufRead_avoids (blockNum : UInt32) :
    Avoids tooLarge (bufRead blockNum) :=
  .bind .get fun _ => .bind (.assert (by decide) _) fun _ =>
    .bind (.assert (by decide) _) fun _ => .bind (.modify _) fun _ =>
      .bind .wait fun _ => .bind (.assert (by decide) _) fun _ =>
        .bind .get fun _ => .pure _

theorem bufWrite_avoids (blockNum : UInt32) (data : Block) :
    Avoids tooLarge (bufWrite blockNum data) :=
  .bind .get fun _ => .bind (.assert (by decide) _) fun _ =>
    .bind (.modify _) fun _ => .wait

theorem bufRelease_avoids (blockNum : UInt32) :
    Avoids tooLarge (bufRelease blockNum) :=
  .bind .get fun _ => .bind (.assert (by decide) _) fun _ => .modify _

theorem getInode_avoids (ip : Slot) : Avoids tooLarge (getInode ip) :=
  .bind .get fun _ => .pure _

theorem modifyData_avoids (ip : Slot) (change : Dinode → Dinode) :
    Avoids tooLarge (modifyData ip change) :=
  .modify _

theorem bitmapSearchAndSet_avoids (bitmapBlock : UInt32) :
    Avoids tooLarge (bitmapSearchAndSet bitmapBlock) := by
  refine .bind (bufRead_avoids _) fun data => ?_
  cases firstClear data with
  | none => exact .bind (bufRelease_avoids _) fun _ => .pure _
  | some number =>
      refine .bind (bufWrite_avoids _ _) fun _ =>
        .bind (bufRelease_avoids _) fun _ => .ite (fun _ => ?_) fun _ => .pure _
      exact .ite (fun _ => .panic (by decide)) fun _ => .panic (by decide)

theorem blockOfEntry_avoids (entry : UInt32) :
    Avoids tooLarge (blockOfEntry entry) :=
  .ite (fun _ => .bind (bitmapSearchAndSet_avoids _) fun _ =>
    .ite (fun _ => .pure _) fun _ => .pure _) fun _ => .pure _

theorem locateBlock_avoids (entry bn : UInt32) (level : Nat) :
    Avoids tooLarge (locateBlock entry bn level) := by
  induction level generalizing entry bn with
  | zero => exact .bind (blockOfEntry_avoids _) fun _ => .pure _
  | succ level inductionHypothesis =>
      exact .bind (blockOfEntry_avoids _) fun _ =>
        .bind (bufRead_avoids _) fun _ =>
          .bind (inductionHypothesis _ _) fun _ =>
            .bind (bufWrite_avoids _ _) fun _ =>
              .bind (bufRelease_avoids _) fun _ => .pure _

theorem inodeLocateBlock_avoids
    (ip : Slot) {bn : UInt32} (bound : bn.toNat < maxBlocks) :
    Avoids tooLarge (inodeLocateBlock ip bn) := by
  obtain ⟨below, same, _⟩ := locateIn_eq (locateAddr ip)
    (Program.panic "inode_locate_block: bn too large") bound
  rw [inodeLocateBlock_eq, same]
  exact .bind (getInode_avoids _) fun _ =>
    .bind (locateBlock_avoids _ _ _) fun _ =>
      .bind (modifyData_avoids _ _) fun _ => .pure _

theorem inodeRw_avoids (ip : Slot) : Avoids tooLarge (inodeRw ip true) :=
  .bind (getInode_avoids _) fun _ => .bind (.assert (by decide) _) fun _ =>
    .bind (bufRead_avoids _) fun _ => .bind (getInode_avoids _) fun _ =>
      .bind (bufWrite_avoids _ _) fun _ => bufRelease_avoids _

/-- The loop of a write that ends where an inode can end looks for no block
behind it. -/
theorem writeLoop_avoids
    {ip : Slot} {offset len total : UInt32} {src : Bytes} {fuel : Nat}
    (noWrap : offset.toNat + (len.toNat - total.toNat) ≤ inodeMaxSize) :
    Avoids tooLarge (writeLoop ip offset len total src fuel) := by
  have sizes : inodeMaxSize = 67643392 ∧ maxBlocks = 66058 := ⟨rfl, rfl⟩
  induction fuel generalizing offset total with
  | zero => exact .pure _
  | succ fuel inductionHypothesis =>
      refine .ite (fun more => ?_) fun _ => .pure _
      have before := UInt32.lt_iff_toNat_lt.mp more
      obtain ⟨_, fits, advance⟩ := pieceLength_bounds offset more
      have number := blockNumber_toNat offset
      have next : (offset + pieceLength offset len total).toNat =
          offset.toNat + (pieceLength offset len total).toNat := by
        rw [UInt32.toNat_add]
        exact Nat.mod_eq_of_lt (by omega)
      exact .bind (inodeLocateBlock_avoids ip (by omega)) fun _ =>
        .bind (bufRead_avoids _) fun _ => .bind (bufWrite_avoids _ _) fun _ =>
          .bind (bufRelease_avoids _) fun _ => inductionHypothesis (by omega)

end Avoids

/-! ## The range checks -/

/-- A locked inode whose blocks below its size exist. -/
structure Allocated (state : State) (ip : Slot) : Prop where
  idle : state.held = []
  locked : (state.icache ip).slk = true
  size : (state.icache ip).data.size.toNat ≤ inodeMaxSize
  wellFormed : WellFormed state ip
  present : ∀ bn, 1024 * bn < (state.icache ip).data.size.toNat →
    state.dataBlock ip bn ≠ 0

/-- A read returns the bytes of the range that exist. -/
def ReadsRange (state : State) (ip : Slot) (offset len : UInt32) : Prop :=
  ∃ bytes after, (inodeReadData ip offset len).Runs state bytes after ∧
    bytes.length =
      if (state.icache ip).data.size.toNat ≤ offset.toNat then 0
      else min len.toNat
        ((state.icache ip).data.size.toNat - offset.toNat)

/-- A write behind the largest size stores nothing. -/
def RefusesRange (state : State) (ip : Slot) (offset len : UInt32) : Prop :=
  inodeMaxSize < offset.toNat + len.toNat →
    ∀ src, (inodeWriteData ip offset len src).Runs state 0 state

/-- The range checks are exact for an offset and a length. -/
structure RangesExact (state : State) (ip : Slot) (offset len : UInt32) :
    Prop where
  read : ReadsRange state ip offset len
  write : RefusesRange state ip offset len
  readStops : (inodeReadData ip offset len).exec state ≠ .error tooLarge
  writeStops : ∀ src,
    (inodeWriteData ip offset len src).exec state ≠ .error tooLarge

section Checks

variable {ip : Slot} {offset len : UInt32}

theorem inodeReadData_behind
    (locked : (state.icache ip).slk = true)
    (behind : (state.icache ip).data.size.toNat ≤ offset.toNat) :
    (inodeReadData ip offset len).Runs state [] state := by
  have inode : (getInode ip).Runs state (state.icache ip) state :=
    runs_getInode.mpr ⟨rfl, rfl⟩
  have isLocked : (Program.assert (state.icache ip).slk
      "inode_read_data: no lock").Runs state () state :=
    Program.runs_assert.mpr ⟨locked, rfl⟩
  unfold inodeReadData
  rw [inode.bind_iff, isLocked.bind_iff,
    if_pos (UInt32.le_iff_toNat_le.mpr behind), Program.runs_pure]
  exact ⟨rfl, rfl⟩

theorem inodeWriteData_refused
    {src : Bytes} (locked : (state.icache ip).slk = true)
    (large : inodeMaxSize < (offset + len).toNat) :
    (inodeWriteData ip offset len src).Runs state 0 state := by
  have inode : (getInode ip).Runs state (state.icache ip) state :=
    runs_getInode.mpr ⟨rfl, rfl⟩
  have isLocked : (Program.assert (state.icache ip).slk
      "inode_write_data: no lock").Runs state () state :=
    Program.runs_assert.mpr ⟨locked, rfl⟩
  unfold inodeWriteData
  rw [inode.bind_iff, isLocked.bind_iff, if_pos large, Program.runs_pure]
  exact ⟨rfl, rfl⟩

/-- A read in front of the end of the data is a run of its loop. -/
theorem inodeReadData_inside
    {result : List UInt8} (locked : (state.icache ip).slk = true)
    (inside : offset.toNat < (state.icache ip).data.size.toNat) :
    (inodeReadData ip offset len).Runs state result final ↔
      (readLoop ip offset
        (readLength (state.icache ip).data.size offset len) 0 []
        (readLength (state.icache ip).data.size offset len).toNat).Runs
          state result final := by
  have inode : (getInode ip).Runs state (state.icache ip) state :=
    runs_getInode.mpr ⟨rfl, rfl⟩
  have isLocked : (Program.assert (state.icache ip).slk
      "inode_read_data: no lock").Runs state () state :=
    Program.runs_assert.mpr ⟨locked, rfl⟩
  have notBehind : ¬offset ≥ (state.icache ip).data.size := fun behind =>
    absurd (UInt32.le_iff_toNat_le.mp behind) (by omega)
  unfold inodeReadData readLength
  rw [inode.bind_iff, isLocked.bind_iff, if_neg notBehind,
    if_neg notBehind]

theorem readLength_exact
    {size : UInt32} (inside : offset.toNat < size.toNat)
    (noWrap : offset.toNat + len.toNat < 2 ^ 32) :
    (readLength size offset len).toNat =
      min len.toNat (size.toNat - offset.toNat) := by
  have sum : (offset + len).toNat = offset.toNat + len.toNat := by
    rw [UInt32.toNat_add]
    exact Nat.mod_eq_of_lt noWrap
  have notBehind : ¬offset ≥ size := fun behind =>
    absurd (UInt32.le_iff_toNat_le.mp behind) (by omega)
  have rest : (size - offset).toNat = size.toNat - offset.toNat :=
    UInt32.toNat_sub_of_le _ _ (UInt32.le_iff_toNat_le.mpr (by omega))
  unfold readLength
  rw [if_neg notBehind]
  split
  · next cut =>
    have cut := UInt32.lt_iff_toNat_lt.mp cut
    omega
  · next whole =>
    have whole := UInt32.le_iff_toNat_le.mp (UInt32.not_lt.mp whole)
    omega

/-- A sum that wraps does not cut the read at the end of the data. -/
theorem readLength_wraps
    {size : UInt32} (inside : offset.toNat < size.toNat)
    (wraps : 2 ^ 32 ≤ offset.toNat + len.toNat) :
    readLength size offset len = len := by
  have small := len.toNat_lt
  have smallOffset := offset.toNat_lt
  have sum : (offset + len).toNat = offset.toNat + len.toNat - 2 ^ 32 := by
    rw [UInt32.toNat_add]
    omega
  unfold readLength
  rw [if_neg fun behind => absurd (UInt32.le_iff_toNat_le.mp behind)
    (by omega), if_neg fun cut => absurd (UInt32.lt_iff_toNat_lt.mp cut)
    (by omega)]

/-- In front of the end of the data a read that does not wrap is exact. -/
theorem Allocated.reads
    (allocated : Allocated state ip)
    (inside : offset.toNat < (state.icache ip).data.size.toNat)
    (noWrap : offset.toNat + len.toNat < 2 ^ 32) :
    ∃ bytes, (inodeReadData ip offset len).Runs state bytes state ∧
      bytes.length =
        min len.toNat ((state.icache ip).data.size.toNat - offset.toNat) := by
  let cut := readLength (state.icache ip).data.size offset len
  have length : cut.toNat =
      min len.toNat ((state.icache ip).data.size.toNat - offset.toNat) :=
    readLength_exact inside noWrap
  have size := allocated.size
  have loop : ∃ bytes,
      (readLoop ip offset cut 0 [] cut.toNat).Runs state bytes state ∧
      bytes.length = 0 + (cut.toNat - 0) :=
    readLoop_present allocated.wellFormed allocated.idle (Nat.zero_le _)
      (Nat.sub_le _ _) (by omega) fun bn below =>
        allocated.present bn (by omega)
  obtain ⟨bytes, run, count⟩ := loop
  refine ⟨bytes, (inodeReadData_inside allocated.locked inside).mpr run, ?_⟩
  omega

/-- A run that returns does not panic. -/
theorem exec_ne_of_runs
    {α : Type} {program : FsM α} {value : α} {message : String}
    (run : program.Runs state value final) :
    program.exec state ≠ .error message := by
  intro stops
  unfold Program.Runs at run
  rw [run] at stops
  cases stops

/-- A write that does not wrap looks for no block that an inode cannot
have. -/
theorem inodeWriteData_avoids
    {src : Bytes} (noWrap : offset.toNat + len.toNat < 2 ^ 32) :
    Avoids tooLarge (inodeWriteData ip offset len src) := by
  have sum : (offset + len).toNat = offset.toNat + len.toNat := by
    rw [UInt32.toNat_add]
    exact Nat.mod_eq_of_lt noWrap
  refine .bind (getInode_avoids _) fun inode => .bind (.assert (by decide) _)
    fun _ => .ite (fun _ => .pure _) fun fits => ?_
  have zero : (0 : UInt32).toNat = 0 := rfl
  refine .bind (writeLoop_avoids (by omega)) fun _ =>
    .bind (getInode_avoids _) fun _ => .ite (fun _ => ?_) fun _ => .pure _
  exact .bind (modifyData_avoids _ _) fun _ =>
    .bind (inodeRw_avoids _) fun _ => .pure _

/-- The range checks are exact where the sum of the offset and the length does
not wrap, and behind the data where the wrapped sum is still too large. -/
theorem rangesExact_iff (allocated : Allocated state ip) :
    RangesExact state ip offset len ↔
      offset.toNat + len.toNat < 2 ^ 32 ∨
        ((state.icache ip).data.size.toNat ≤ offset.toNat ∧
          inodeMaxSize < (offset + len).toNat) := by
  have locked := allocated.locked
  constructor
  · intro exact
    by_contra other
    rw [not_or, not_and_or, not_lt, not_le, not_lt] at other
    obtain ⟨wraps, other⟩ := other
    have smallOffset := offset.toNat_lt
    have size := allocated.size
    have sizes : inodeMaxSize = 67643392 := rfl
    by_cases inside : offset.toNat < (state.icache ip).data.size.toNat
    · obtain ⟨bytes, after, run, count⟩ := exact.read
      rw [if_neg (by omega)] at count
      have loop := (inodeReadData_inside locked inside).mp run
      rw [readLength_wraps inside wraps] at loop
      have all := readLoop_length (Nat.sub_le _ _) loop
      have zero : (0 : UInt32).toNat = 0 := rfl
      rw [List.length_nil] at all
      omega
    · have run := exact.write (by omega) fun _ => 0
      rcases inodeWriteData_runs run with
        ⟨large, _⟩ | ⟨_, finish, middle, loop, _⟩
      · omega
      · have none : (0 : UInt32) = len :=
          writeLoop_count (Nat.zero_le _) (Nat.sub_le _ _) loop
        rw [← none, UInt32.toNat_zero] at wraps
        omega
  · intro condition
    have large : inodeMaxSize < offset.toNat + len.toNat →
        inodeMaxSize < (offset + len).toNat := by
      intro behind
      rcases condition with noWrap | ⟨_, large⟩
      · rw [UInt32.toNat_add, Nat.mod_eq_of_lt noWrap]
        exact behind
      · exact large
    have read : ∃ bytes, (inodeReadData ip offset len).Runs state bytes state ∧
        bytes.length =
          if (state.icache ip).data.size.toNat ≤ offset.toNat then 0
          else min len.toNat
            ((state.icache ip).data.size.toNat - offset.toNat) := by
      by_cases behind : (state.icache ip).data.size.toNat ≤ offset.toNat
      · exact ⟨[], inodeReadData_behind locked behind, (if_pos behind).symm⟩
      · rw [if_neg behind]
        rcases condition with noWrap | ⟨isBehind, _⟩
        · exact allocated.reads (by omega) noWrap
        · exact absurd isBehind behind
    obtain ⟨bytes, run, count⟩ := read
    refine ⟨⟨bytes, state, run, count⟩, fun behind src =>
      inodeWriteData_refused locked (large behind), exec_ne_of_runs run,
      fun src => ?_⟩
    rcases condition with noWrap | ⟨_, large⟩
    · exact inodeWriteData_avoids noWrap state
    · exact exec_ne_of_runs (inodeWriteData_refused locked large)

end Checks

/-- A disk and a cache with a locked file of two bytes. -/
def smallFile : State where
  disk index := if index = 130 then Function.update zeroBlock 0 3
    else zeroBlock
  held := []
  icache _ := ⟨⟨ftFile, 0, 0, 1, 2, fun k => if k = 0 then 132 else 0⟩, 1, 1,
    true, true⟩
  lkIcache := false

theorem smallFile_allocated : Allocated smallFile 0 := by
  have first : ∀ (k : Fin nAddrs) path, path.length ≤ addrLevel k →
      Forest.value 0 smallFile.child ((smallFile.icache 0).data.addrs k)
        path ≠ 0 → k = 0 ∧ path = [] := by
    intro k path bound present
    by_cases isFirst : k = 0
    · subst isFirst
      exact ⟨rfl, List.length_eq_zero_iff.mp (Nat.le_zero.mp bound)⟩
    · have missing : (smallFile.icache 0).data.addrs k = 0 :=
        if_neg isFirst
      rw [missing, Forest.value_null] at present
      exact absurd rfl present
  refine ⟨rfl, rfl, by decide, ⟨fun k path bound present => ?_,
    fun k k' path path' bound bound' present same => ?_⟩, fun bn below => ?_⟩
  · obtain ⟨rfl, rfl⟩ := first k path bound present
    exact ⟨by decide, by decide, by decide +kernel⟩
  · obtain ⟨rfl, rfl⟩ := first k path bound present
    rw [same] at present
    obtain ⟨rfl, rfl⟩ := first k' path' bound' present
    exact ⟨rfl, rfl⟩
  · have isFirst : bn = 0 := by
      have two : (smallFile.icache 0).data.size.toNat = 2 := rfl
      omega
    subst isFirst
    show (132 : UInt32) ≠ 0
    decide

/-- A read of the second byte of a file of two bytes with a length of
`2 ^ 32 - 1` is not cut at the end of the file. -/
theorem ranges_not_exact :
    ¬∀ (state : State) (ip : Slot) (offset len : UInt32),
      Allocated state ip → RangesExact state ip offset len := by
  intro all
  have exact := all smallFile 0 1 0xFFFFFFFF smallFile_allocated
  have allocated := smallFile_allocated
  obtain ⟨bytes, after, run, count⟩ := exact.read
  have loop := (inodeReadData_inside allocated.locked (by decide)).mp run
  rw [readLength_wraps (by decide) (by decide)] at loop
  have long := readLoop_length (Nat.sub_le _ _) loop
  rw [count] at long
  exact absurd long (by decide)

/-- The range checks of the small file are exact for a read of its second
byte. -/
theorem rangesExact_smallFile : RangesExact smallFile 0 1 1 :=
  (rangesExact_iff smallFile_allocated).mpr (Or.inl (by decide))

end Fs
end WhuOs
