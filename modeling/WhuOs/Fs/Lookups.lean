import WhuOs.Fs.BitmapSet
import WhuOs.Fs.Reading

/-!
# Searches for blocks

The search for a block of an inode follows the entries of index blocks and
allocates a block for an entry that is empty.  As long as it meets no empty
entry, or when the data bitmap has no clear bit, it changes nothing.
-/

namespace WhuOs
namespace Fs

open Library
open Library.Bytes
open Library.Forest (Tree)
open Program (Runs)

variable {state final middle : State}

/-! ## Waiting for the disk -/

theorem waits_bufRead
    {blockNum : UInt32} :
    (bufRead blockNum).Waits state middle ↔ blockNum ∉ state.held ∧
      state.held.length < Buf.nBlockBuf ∧
      middle = state.setHeld (blockNum :: state.held) := by
  simp [bufRead]

theorem waits_bufWrite
    {blockNum : UInt32} {data : Block} :
    (bufWrite blockNum data).Waits state middle ↔ blockNum ∈ state.held ∧
      middle = state.setDisk (diskIndex blockNum) data := by
  simp [bufWrite]

theorem not_waits_bufRelease {blockNum : UInt32} :
    ¬(bufRelease blockNum).Waits state middle := by
  simp [bufRelease]

/-- The data bitmap has no clear bit. -/
def State.Full (state : State) : Prop :=
  firstClear state.dataBitmap = none

instance (state : State) : Decidable state.Full :=
  inferInstanceAs (Decidable (firstClear state.dataBitmap = none))

/-- Memory and the disk look the same, whatever buffers are locked. -/
structure Same (state middle : State) : Prop where
  disk : middle.disk = state.disk
  icache : middle.icache = state.icache

theorem Same.refl (state : State) : Same state state := ⟨rfl, rfl⟩

/-- A buffer that can be locked besides others. -/
def Lockable (held : List UInt32) (blockNum : UInt32) : Prop :=
  blockNum ∉ held ∧ held.length < Buf.nBlockBuf

instance (held : List UInt32) (blockNum : UInt32) :
    Decidable (Lockable held blockNum) :=
  inferInstanceAs (Decidable (_ ∧ _))

/-! ## Allocation -/

theorem bufRead_lockable
    {blockNum : UInt32} {data : Block}
    (run : (bufRead blockNum).Runs state data final) :
    Lockable state.held blockNum := by
  simp only [bufRead, Program.runs_bind, Program.runs_get,
    Program.runs_assert, decide_eq_true_eq] at run
  obtain ⟨_, _, ⟨rfl, rfl⟩, _, _, ⟨unlocked, rfl⟩, _, _, ⟨room, _⟩, _⟩ := run
  exact ⟨unlocked, room⟩

theorem bitmapAllocBlock_full (full : state.Full) :
    (∀ middle, bitmapAllocBlock.Waits state middle → Same state middle) ∧
    ∀ result final, bitmapAllocBlock.Runs state result final →
      result = 0 ∧ final = state := by
  constructor
  · intro middle waits
    unfold bitmapAllocBlock bitmapSearchAndSet at waits
    simp only [Program.waits_bind] at waits
    rcases waits with (reads | ⟨data, locked, read, rest⟩) | ⟨_, _, _, rest⟩
    · obtain ⟨_, _, rfl⟩ := waits_bufRead.mp reads
      exact ⟨rfl, rfl⟩
    · obtain ⟨_, _, rfl, rfl⟩ := bufRead_runs read
      have isNone : firstClear (state.disk (diskIndex dataBitmapStart)) =
          none := full
      simp only [isNone, Program.waits_bind] at rest
      rcases rest with releases | ⟨_, _, _, ends⟩
      · exact (not_waits_bufRelease releases).elim
      · exact (Program.not_waits_pure ends).elim
    · split at rest <;> exact (Program.not_waits_pure rest).elim
  · intro result final run
    unfold bitmapAllocBlock at run
    obtain ⟨bitNum, middle, search, rest⟩ := Program.runs_bind.mp run
    rcases bitmapSearchAndSet_runs search with
      ⟨_, rfl, rfl⟩ | ⟨number, found, _⟩
    · obtain ⟨rfl, rfl⟩ := Program.runs_pure.mp rest
      exact ⟨rfl, rfl⟩
    · have isNone : firstClear (state.disk (diskIndex dataBitmapStart)) =
          none := full
      rw [isNone] at found
      cases found

/-- An allocation that finds a clear bit stores it. -/
theorem bitmapAllocBlock_stores
    (lockable : Lockable state.held dataBitmapStart) (notFull : ¬state.Full) :
    ∃ middle, bitmapAllocBlock.Waits state middle ∧
      middle.disk ≠ state.disk := by
  obtain ⟨number, found⟩ := Option.ne_none_iff_exists'.mp notFull
  have read := bufRead_total lockable.1 lockable.2 (by decide)
  refine ⟨(state.setHeld (dataBitmapStart :: state.held)).setDisk 130
    (setBit state.dataBitmap number), ?_, fun same => ?_⟩
  · unfold bitmapAllocBlock bitmapSearchAndSet
    refine Program.waits_bind.mpr (Or.inl (Program.waits_bind.mpr (Or.inr
      ⟨_, _, read, ?_⟩)))
    rw [show firstClear (state.disk (diskIndex dataBitmapStart)) = some number
      from found]
    exact Program.waits_bind.mpr (Or.inl (waits_bufWrite.mpr
      ⟨List.mem_cons_self, rfl⟩))
  · have isClear := (firstClear_eq_some found).2.1
    have stored : setBit state.dataBitmap number = state.dataBitmap :=
      (Function.update_self 130 _ state.disk).symm.trans (congrFun same 130)
    rw [← stored, bitAt_setBit, decide_eq_true rfl] at isClear
    cases isClear

/-- An entry that is not empty, or for which there is nothing to allocate. -/
theorem blockOfEntry_quiet
    {entry : UInt32} {held : List UInt32}
    (quiet : state.Full ∨ entry ≠ 0 ∨ ¬Lockable held dataBitmapStart) :
    (∀ middle, (blockOfEntry entry).Waits (state.setHeld held) middle →
      Same state middle) ∧
    ∀ result final, (blockOfEntry entry).Runs (state.setHeld held) result
        final →
      result = entry ∧ final = state.setHeld held ∧
        (state.Full ∨ entry ≠ 0) := by
  unfold blockOfEntry
  by_cases isNull : entry = 0
  · rw [if_pos isNull, isNull]
    by_cases full : state.Full
    · have full' : (state.setHeld held).Full := full
      obtain ⟨waits, runs⟩ := bitmapAllocBlock_full full'
      refine ⟨fun middle here => ?_, fun result final run => ?_⟩
      · obtain ⟨disk, icache⟩ := waits middle here
        exact ⟨disk, icache⟩
      · obtain ⟨isZero, same⟩ := runs result final run
        exact ⟨isZero, same, Or.inl full⟩
    · have stuck : ¬Lockable (state.setHeld held).held dataBitmapStart :=
        (quiet.resolve_left full).resolve_left (not_not.mpr isNull)
      constructor
      · intro middle waits
        unfold bitmapAllocBlock bitmapSearchAndSet at waits
        simp only [Program.waits_bind] at waits
        rcases waits with (reads | ⟨_, _, read, _⟩) | ⟨_, _, search, _⟩
        · obtain ⟨unlocked, room, _⟩ := waits_bufRead.mp reads
          exact absurd ⟨unlocked, room⟩ stuck
        · exact absurd (bufRead_lockable read) stuck
        · obtain ⟨_, _, read, _⟩ := Program.runs_bind.mp search
          exact absurd (bufRead_lockable read) stuck
      · intro result final run
        obtain ⟨_, _, search, _⟩ := Program.runs_bind.mp run
        obtain ⟨_, _, read, _⟩ := Program.runs_bind.mp search
        exact absurd (bufRead_lockable read) stuck
  · rw [if_neg isNull]
    refine ⟨fun middle waits => (Program.not_waits_pure waits).elim,
      fun result final run => ?_⟩
    obtain ⟨rfl, rfl⟩ := Program.runs_pure.mp run
    exact ⟨rfl, rfl, Or.inr isNull⟩

/-! ## Lookups -/

/-- What a lookup meets. -/
inductive Lookup
  | found (block : UInt32)
  | hole
  | stops
  deriving DecidableEq

/-- An empty entry.  The allocation stops if the bitmap cannot be locked. -/
def Lookup.empty (held : List UInt32) : Lookup :=
  if Lockable held dataBitmapStart then .hole else .stops

/-- The entry of the block of an index block. -/
def State.next (state : State) (block bn : UInt32) (level : Nat) : UInt32 :=
  read32 (state.disk (diskIndex block))
    (4 * (bn / UInt32.ofNat (entryPerBlock ^ level)).toNat)

/-- What the search below an entry meets first: the block, an empty entry or a
block that cannot be read. -/
def State.meets (state : State) :
    (entry bn : UInt32) → (level : Nat) → (held : List UInt32) → Lookup
  | entry, _, 0, held => if entry = 0 then .empty held else .found entry
  | entry, bn, level + 1, held =>
      if entry = 0 then
        .empty held
      else if Lockable held entry ∧ diskIndex entry < totalBlocks then
        state.meets (state.next entry bn level)
          (bn % UInt32.ofNat (entryPerBlock ^ level)) level (entry :: held)
      else
        .stops

/-- A search that finds no empty entry or cannot take a block changes nothing,
and it finds the block of the lookup or goes on from an empty entry. -/
structure QuietLookup (state : State) (level : Nat) (entry bn : UInt32)
    (held : List UInt32) : Prop where
  waits : ∀ middle, (locateBlock entry bn level).Waits (state.setHeld held)
    middle → Same state middle
  runs : ∀ ret entry' final, (locateBlock entry bn level).Runs
      (state.setHeld held) (ret, entry') final →
    entry' = entry ∧ final = state.setHeld held ∧
      (state.Full ∨ state.meets entry bn level held = .found ret)

theorem State.meets_succ
    {level : Nat} {entry bn : UInt32} {held : List UInt32}
    (present : entry ≠ 0) (lockable : Lockable held entry)
    (inside : diskIndex entry < totalBlocks) :
    state.meets entry bn (level + 1) held = state.meets
      (state.next entry bn level)
      (bn % UInt32.ofNat (entryPerBlock ^ level)) level (entry :: held) := by
  rw [State.meets, if_neg present, if_pos ⟨lockable, inside⟩]

theorem takes_of_quiet
    {level : Nat} {entry bn : UInt32} {held : List UInt32}
    (quiet : state.Full ∨ state.meets entry bn level held ≠ .hole) :
    state.Full ∨ entry ≠ 0 ∨ ¬Lockable held dataBitmapStart := by
  by_contra allocates
  simp only [not_or, not_not] at allocates
  obtain ⟨notFull, isNull, lockable⟩ := allocates
  refine quiet.resolve_left notFull ?_
  cases level <;> simp [State.meets, isNull, Lookup.empty, lockable]

theorem walkBelow_quiet
    {level : Nat} {block bn : UInt32} {held : List UInt32}
    (below : Lockable held block → diskIndex block < totalBlocks →
      QuietLookup state level (state.next block bn level)
        (bn % UInt32.ofNat (entryPerBlock ^ level)) (block :: held)) :
    (∀ middle, (walkBelow block bn level).Waits (state.setHeld held) middle →
      Same state middle) ∧
    ∀ ret entry' final, (walkBelow block bn level).Runs (state.setHeld held)
        (ret, entry') final →
      entry' = block ∧ final = state.setHeld held ∧
      Lockable held block ∧ diskIndex block < totalBlocks ∧
      (state.Full ∨ state.meets (state.next block bn level)
        (bn % UInt32.ofNat (entryPerBlock ^ level)) level (block :: held) =
          .found ret) := by
  have isNext : write32 (state.disk (diskIndex block))
      (4 * (bn / UInt32.ofNat (entryPerBlock ^ level)).toNat)
      (state.next block bn level) = state.disk (diskIndex block) :=
    write32_read32 _ _
  have written : (state.setHeld (block :: held)).setDisk (diskIndex block)
      (state.disk (diskIndex block)) = state.setHeld (block :: held) :=
    @setDisk_self (state.setHeld (block :: held)) (diskIndex block)
  unfold walkBelow
  constructor
  · intro middle waits
    rcases Program.waits_bind.mp waits with reads | ⟨data, _, read, waits⟩
    · obtain ⟨_, _, rfl⟩ := waits_bufRead.mp reads
      exact ⟨rfl, rfl⟩
    · have lockable := bufRead_lockable read
      obtain ⟨_, inside, rfl, rfl⟩ := bufRead_runs read
      have search := below lockable inside
      rcases Program.waits_bind.mp waits with
        locates | ⟨⟨_, _⟩, _, locate, waits⟩
      · exact search.waits middle locates
      · obtain ⟨rfl, rfl, _⟩ := search.runs _ _ _ locate
        rcases Program.waits_bind.mp waits with writes | ⟨_, _, _, ends⟩
        · obtain ⟨_, rfl⟩ := waits_bufWrite.mp writes
          rw [State.setHeld_disk, isNext, written]
          exact ⟨rfl, rfl⟩
        · rcases Program.waits_bind.mp ends with releases | ⟨_, _, _, ends⟩
          · exact (not_waits_bufRelease releases).elim
          · exact (Program.not_waits_pure ends).elim
  · intro ret entry' final run
    obtain ⟨data, _, read, run⟩ := Program.runs_bind.mp run
    have lockable := bufRead_lockable read
    obtain ⟨_, inside, rfl, rfl⟩ := bufRead_runs read
    obtain ⟨⟨_, _⟩, _, locate, run⟩ := Program.runs_bind.mp run
    obtain ⟨rfl, rfl, found⟩ := (below lockable inside).runs _ _ _ locate
    obtain ⟨_, _, write, run⟩ := Program.runs_bind.mp run
    obtain ⟨_, _, release, ends⟩ := Program.runs_bind.mp run
    obtain ⟨same, rfl⟩ := Program.runs_pure.mp ends
    obtain ⟨rfl, rfl⟩ := Prod.mk.inj same
    rw [State.setHeld_disk, isNext] at write
    refine ⟨rfl, ?_, lockable, inside, found⟩
    rw [bufRelease_runs release, bufWrite_runs write, written,
      State.setHeld_held, List.erase_cons_head, State.setHeld_setHeld]

theorem locateBlock_quiet
    {level : Nat} {entry bn : UInt32} {held : List UInt32}
    (quiet : state.Full ∨ state.meets entry bn level held ≠ .hole) :
    QuietLookup state level entry bn held := by
  induction level generalizing entry bn held with
  | zero =>
      obtain ⟨takeWaits, takeRuns⟩ := blockOfEntry_quiet (takes_of_quiet quiet)
      refine ⟨fun middle waits => ?_, fun ret entry' final run => ?_⟩
      · rcases Program.waits_bind.mp waits with take | ⟨_, _, _, ends⟩
        · exact takeWaits middle take
        · exact (Program.not_waits_pure ends).elim
      · obtain ⟨_, _, take, ends⟩ := Program.runs_bind.mp run
        obtain ⟨rfl, rfl, notNull⟩ := takeRuns _ _ take
        obtain ⟨same, rfl⟩ := Program.runs_pure.mp ends
        obtain ⟨rfl, rfl⟩ := Prod.mk.inj same
        refine ⟨rfl, rfl, notNull.imp id fun present => ?_⟩
        exact if_neg present
  | succ level inductionHypothesis =>
      obtain ⟨takeWaits, takeRuns⟩ := blockOfEntry_quiet (takes_of_quiet quiet)
      have below : (state.Full ∨ entry ≠ 0) → Lockable held entry →
          diskIndex entry < totalBlocks →
          QuietLookup state level (state.next entry bn level)
            (bn % UInt32.ofNat (entryPerBlock ^ level)) (entry :: held) := by
        intro notNull lockable inside
        apply inductionHypothesis
        rcases notNull with full | present
        · exact Or.inl full
        · rw [← State.meets_succ present lockable inside]
          exact quiet
      refine ⟨fun middle waits => ?_, fun ret entry' final run => ?_⟩
      · rw [locateBlock_succ] at waits
        rcases Program.waits_bind.mp waits with take | ⟨_, _, take, waits⟩
        · exact takeWaits middle take
        · obtain ⟨rfl, rfl, notNull⟩ := takeRuns _ _ take
          exact (walkBelow_quiet (below notNull)).1 middle waits
      · rw [locateBlock_succ] at run
        obtain ⟨_, _, take, walk⟩ := Program.runs_bind.mp run
        obtain ⟨rfl, rfl, notNull⟩ := takeRuns _ _ take
        obtain ⟨rfl, rfl, lockable, inside, found⟩ :=
          (walkBelow_quiet (below notNull)).2 _ _ _ walk
        refine ⟨rfl, rfl, ?_⟩
        by_cases full : state.Full
        · exact Or.inl full
        · right
          rw [State.meets_succ (notNull.resolve_left full) lockable inside]
          exact found.resolve_left full

theorem Lookup.empty_ne_found (held : List UInt32) (block : UInt32) :
    Lookup.empty held ≠ .found block := by
  unfold Lookup.empty
  split <;> nofun

theorem blockOfEntry_present
    {entry : UInt32} (present : entry ≠ 0) (state : State) :
    (blockOfEntry entry).Runs state entry state := by
  unfold blockOfEntry
  rw [if_neg present]
  exact Program.runs_pure.mpr ⟨rfl, rfl⟩

/-- A lookup that finds its block is what the search does. -/
theorem locateBlock_found
    {level : Nat} {entry bn ret : UInt32} {held : List UInt32}
    (found : state.meets entry bn level held = .found ret) :
    (locateBlock entry bn level).Runs (state.setHeld held) (ret, entry)
      (state.setHeld held) := by
  induction level generalizing entry bn held with
  | zero =>
      rw [State.meets] at found
      split at found
      · exact absurd found (Lookup.empty_ne_found held ret)
      · next present =>
          cases found
          exact (blockOfEntry_present present _).bind_iff.mpr
            (Program.runs_pure.mpr ⟨rfl, rfl⟩)
  | succ level inductionHypothesis =>
      rw [State.meets] at found
      split at found
      · exact absurd found (Lookup.empty_ne_found held ret)
      · next present =>
          split at found
          · next readable =>
              have read := @bufRead_total (state.setHeld held) entry
                readable.1.1 readable.1.2 readable.2
              have locate := inductionHypothesis found
              have write := @bufWrite_total (state.setHeld (entry :: held))
                entry List.mem_cons_self (state.disk (diskIndex entry))
              have release := @bufRelease_total (state.setHeld (entry :: held))
                entry List.mem_cons_self
              have isNext : write32 (state.disk (diskIndex entry))
                  (4 * (bn / UInt32.ofNat (entryPerBlock ^ level)).toNat)
                  (state.next entry bn level) =
                    state.disk (diskIndex entry) :=
                write32_read32 _ _
              rw [show (state.setHeld (entry :: held)).setDisk (diskIndex entry)
                  (state.disk (diskIndex entry)) = state.setHeld (entry :: held)
                from @setDisk_self (state.setHeld (entry :: held))
                  (diskIndex entry)] at write
              rw [State.setHeld_held, List.erase_cons_head,
                State.setHeld_setHeld] at release
              rw [locateBlock_succ, (blockOfEntry_present present _).bind_iff]
              refine read.bind_iff.mpr (locate.bind_iff.mpr ?_)
              rw [← isNext] at write
              exact write.bind_iff.mpr (release.bind_iff.mpr
                (Program.runs_pure.mpr ⟨rfl, rfl⟩))
          · cases found

theorem blockOfEntry_stores
    {entry : UInt32} {held : List UInt32} (notFull : ¬state.Full)
    (isNull : entry = 0) (hole : Lookup.empty held = .hole) :
    ∃ middle, (blockOfEntry entry).Waits (state.setHeld held) middle ∧
      middle.disk ≠ state.disk := by
  unfold Lookup.empty at hole
  split at hole
  · next lockable =>
      unfold blockOfEntry
      rw [if_pos isNull]
      exact @bitmapAllocBlock_stores (state.setHeld held) lockable notFull
  · cases hole

/-- In a tree of blocks a search finds the block at the end of its path. -/
theorem State.meets_eq
    {level : Nat} (small : level < 4) {entry bn : UInt32} {held : List UInt32}
    (bound : 0 < level → bn.toNat < entryPerBlock ^ level)
    (tree : Tree 0 level entry state.child state.Marked)
    (unlocked : (state.setHeld held).Unlocked level entry)
    (room : held.length + level < Buf.nBlockBuf) :
    state.meets entry bn level held =
      if state.blockAt entry (pathBelow bn.toNat level) = 0 then .hole
      else .found (state.blockAt entry (pathBelow bn.toNat level)) := by
  have empty : ∀ {other : List UInt32} {height : Nat} {block : UInt32},
      (state.setHeld other).Unlocked height block →
      other.length + height < Buf.nBlockBuf → Lookup.empty other = .hole :=
    fun below fits => if_pos ⟨below.bitmap,
      Nat.lt_of_le_of_lt (Nat.le_add_right _ _) fits⟩
  induction level generalizing entry bn held with
  | zero =>
      rw [State.meets, empty unlocked room]
      rfl
  | succ level inductionHypothesis =>
      by_cases isNull : entry = 0
      · rw [State.meets, if_pos isNull, empty unlocked room, isNull,
          State.blockAt, Forest.value_null, if_pos rfl]
      · obtain ⟨offset, remainder⟩ := childIndex_of_lt
          (Nat.lt_of_succ_lt small) (bound (Nat.succ_pos _))
        have marked := Forest.Tree.marked_entry tree isNull
        have notHeld : entry ∉ held := fun locked =>
          (unlocked entry locked).2 [] (Nat.succ_pos _) rfl
        have inside : diskIndex entry < totalBlocks := by
          rw [marked.diskIndex_eq]
          exact marked.2.1
        rw [State.meets_succ isNull ⟨notHeld, by omega⟩ inside, pathBelow,
          State.blockAt, Forest.value_cons isNull, ← remainder]
        unfold State.next
        rw [offset]
        refine inductionHypothesis (Nat.lt_of_succ_lt small) (fun _ => ?_)
          (tree.below isNull _) (unlocked.below tree isNull _) ?_
        · rw [remainder]
          exact Nat.mod_lt _ (Nat.pow_pos (by decide))
        · rw [List.length_cons]
          omega

/-- A lookup that meets an empty entry allocates a block. -/
theorem locateBlock_hole
    {level : Nat} {entry bn : UInt32} {held : List UInt32}
    (notFull : ¬state.Full)
    (hole : state.meets entry bn level held = .hole) :
    ∃ middle, (locateBlock entry bn level).Waits (state.setHeld held) middle ∧
      middle.disk ≠ state.disk := by
  induction level generalizing entry bn held with
  | zero =>
      rw [State.meets] at hole
      split at hole
      · next isNull =>
          obtain ⟨middle, waits, differs⟩ :=
            blockOfEntry_stores notFull isNull hole
          exact ⟨middle, Program.waits_bind.mpr (Or.inl waits), differs⟩
      · cases hole
  | succ level inductionHypothesis =>
      rw [State.meets] at hole
      rw [locateBlock_succ]
      split at hole
      · next isNull =>
          obtain ⟨middle, waits, differs⟩ :=
            blockOfEntry_stores notFull isNull hole
          exact ⟨middle, Program.waits_bind.mpr (Or.inl waits), differs⟩
      · next present =>
          split at hole
          · next readable =>
              obtain ⟨middle, waits, differs⟩ := inductionHypothesis hole
              have read := @bufRead_total (state.setHeld held) entry
                readable.1.1 readable.1.2 readable.2
              refine ⟨middle, Program.waits_bind.mpr (Or.inr
                ⟨entry, _, blockOfEntry_present present _, ?_⟩), differs⟩
              unfold walkBelow
              exact Program.waits_bind.mpr (Or.inr ⟨_, _, read,
                Program.waits_bind.mpr (Or.inl waits)⟩)
          · cases hole

/-! ## Blocks of an inode -/

/-- What the search for a numbered block of an inode meets. -/
def State.meetsAt (state : State) (ip : Slot) (bn : UInt32) : Lookup :=
  locateIn (fun k below level =>
    state.meets ((state.icache ip).data.addrs k) below level []) .stops bn

/-- A search follows one of the block numbers, or there is no such block. -/
theorem search_cases (ip : Slot) (bn : UInt32) :
    (inodeLocateBlock ip bn = Program.panic "inode_locate_block: bn too large" ∧
      ∀ state : State, state.meetsAt ip bn = .stops) ∨
    ∃ k below level, inodeLocateBlock ip bn = locateAddr ip k below level ∧
      ∀ state : State, state.meetsAt ip bn =
        state.meets ((state.icache ip).data.addrs k) below level [] := by
  rw [inodeLocateBlock_eq]
  unfold State.meetsAt locateIn
  by_cases direct : bn < 10
  · simp only [if_pos direct]
    exact Or.inr ⟨_, _, _, rfl, fun _ => rfl⟩
  · simp only [if_neg direct]
    by_cases single : bn - 10 < 512
    · simp only [if_pos single]
      exact Or.inr ⟨_, _, _, rfl, fun _ => rfl⟩
    · simp only [if_neg single]
      by_cases double : bn - 10 - 512 < 65536
      · simp only [if_pos double]
        exact Or.inr ⟨_, _, _, rfl, fun _ => rfl⟩
      · exact Or.inl ⟨if_neg double, fun _ => if_neg double⟩

theorem setAddr_self (dinode : Dinode) (k : Fin nAddrs) :
    dinode.setAddr k (dinode.addrs k) = dinode := by
  unfold Dinode.setAddr
  rw [Function.update_eq_self]

theorem setData_self (ip : Slot) :
    state.setData ip (state.icache ip).data = state := by
  have same : (state.icache ip).setData (state.icache ip).data =
      state.icache ip := rfl
  unfold State.setData
  rw [same]
  unfold State.setInode
  rw [Function.update_eq_self]

section Numbered

variable {ip : Slot} {bn : UInt32} (idle : state.held = [])

theorem getInode_total (state : State) (ip : Slot) :
    (getInode ip).Runs state (state.icache ip) state :=
  runs_getInode.mpr ⟨rfl, rfl⟩

theorem not_waits_getInode {ip : Slot} : ¬(getInode ip).Waits state middle := by
  simp [getInode]

theorem not_waits_modifyData {ip : Slot} {change : Dinode → Dinode} :
    ¬(modifyData ip change).Waits state middle := by
  simp [modifyData, modifyInode]

include idle

theorem setHeld_idle : state.setHeld [] = state := by
  rw [← idle]
  rfl

theorem inodeLocateBlock_quiet
    (quiet : state.Full ∨ state.meetsAt ip bn ≠ .hole) :
    (∀ middle, (inodeLocateBlock ip bn).Waits state middle →
      Same state middle) ∧
    ∀ ret final, (inodeLocateBlock ip bn).Runs state ret final →
      final = state ∧ (state.Full ∨ state.meetsAt ip bn = .found ret) := by
  rcases search_cases ip bn with ⟨isPanic, _⟩ | ⟨k, below, level, same, meets⟩
  · rw [isPanic]
    exact ⟨fun middle waits => (Program.not_waits_panic waits).elim,
      fun ret final run => (Program.runs_panic run).elim⟩
  · rw [meets] at quiet ⊢
    have search := locateBlock_quiet quiet
    rw [same]
    unfold locateAddr
    constructor
    · intro middle waits
      rw [(getInode_total state ip).waits_bind_iff not_waits_getInode] at waits
      rcases Program.waits_bind.mp waits with locates | ⟨_, _, _, ends⟩
      · refine search.waits middle ?_
        rw [setHeld_idle idle]
        exact locates
      · rcases Program.waits_bind.mp ends with modifies | ⟨_, _, _, ends⟩
        · exact (not_waits_modifyData modifies).elim
        · exact (Program.not_waits_pure ends).elim
    · intro ret final run
      rw [(getInode_total state ip).bind_iff] at run
      obtain ⟨⟨_, _⟩, _, locate, run⟩ := Program.runs_bind.mp run
      rw [← setHeld_idle idle] at locate
      obtain ⟨rfl, rfl, found⟩ := search.runs _ _ _ locate
      obtain ⟨_, _, modify, ends⟩ := Program.runs_bind.mp run
      obtain rfl := runs_modifyData.mp modify
      obtain ⟨rfl, rfl⟩ := Program.runs_pure.mp ends
      refine ⟨?_, found⟩
      rw [setHeld_idle idle, setAddr_self, setData_self]

theorem inodeLocateBlock_found
    {ret : UInt32} (found : state.meetsAt ip bn = .found ret) :
    (inodeLocateBlock ip bn).Runs state ret state := by
  rcases search_cases ip bn with ⟨_, meets⟩ | ⟨k, below, level, same, meets⟩
  · rw [meets] at found
    cases found
  · rw [meets] at found
    have locate := locateBlock_found found
    rw [setHeld_idle idle] at locate
    rw [same]
    unfold locateAddr
    refine (getInode_total state ip).bind_iff.mpr (locate.bind_iff.mpr
      (Program.runs_bind.mpr ⟨(), state, ?_, Program.runs_pure.mpr ⟨rfl, rfl⟩⟩))
    rw [runs_modifyData, setAddr_self, setData_self]

theorem inodeLocateBlock_hole
    (notFull : ¬state.Full) (hole : state.meetsAt ip bn = .hole) :
    ∃ middle, (inodeLocateBlock ip bn).Waits state middle ∧
      middle.disk ≠ state.disk := by
  rcases search_cases ip bn with ⟨_, meets⟩ | ⟨k, below, level, same, meets⟩
  · rw [meets] at hole
    cases hole
  · rw [meets] at hole
    obtain ⟨middle, waits, differs⟩ := locateBlock_hole notFull hole
    rw [setHeld_idle idle] at waits
    rw [same]
    unfold locateAddr
    exact ⟨middle, ((getInode_total state ip).waits_bind_iff
      not_waits_getInode).mpr (Program.waits_bind.mpr (Or.inl waits)), differs⟩

end Numbered

end Fs
end WhuOs
