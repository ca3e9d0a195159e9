import Mathlib.Data.Finset.Card
import WhuOs.Fs.CStrings
import WhuOs.Fs.Linking
import WhuOs.Library.SlotMap
import WhuOs.Library.TransitionSystem

/-!
# Directory blocks as maps

The entries of a directory block in use are a finite map from names to inode
numbers, through any sequence of calls on a locked directory.
-/

namespace WhuOs
namespace Fs

open Library
open Library.SlotMap (Change Distinct)
open Program (Runs)

variable {state final : State} {pip : Slot} {data : Block}
  {entry : EntryIndex} {name : CString} {inodeNum : UInt16}

/-! ## Blocks -/

/-- A directory block with distinct names that end within the entry.  No entry
in use has the inode number that stands for none. -/
structure DirFormed (data : Block) : Prop where
  distinct : Distinct (entryOf data)
  terminated : ∀ entry, entryOf data entry ≠ none →
    ∃ index < dirNameLen, data (direntSize * entry + 2 + index) = 0
  numbers : ∀ entry name, entryOf data entry ≠ some (name, inodeNumUnused)

theorem entryOf_storeEntry
    (fits : name.Fits) (data : Block) (entry : EntryIndex)
    (inodeNum : UInt16) :
    entryOf (storeEntry data entry inodeNum name) =
      Function.update (entryOf data) entry (some (name.bytes, inodeNum)) := by
  funext other
  by_cases same : other = entry
  · rw [same, Function.update_self, entryOf_storeEntry_self fits]
  · rw [Function.update_of_ne same, entryOf_storeEntry_of_ne same]

theorem entryOf_clearEntry (data : Block) (entry : EntryIndex) :
    entryOf (clearEntry data entry) =
      Function.update (entryOf data) entry none := by
  funext other
  by_cases same : other = entry
  · rw [same, Function.update_self, entryOf_clearEntry_self]
  · rw [Function.update_of_ne same, entryOf_clearEntry_of_ne same]

namespace DirFormed

/-- A block that differs in one entry. -/
theorem update
    (formed : DirFormed data) {data' : Block}
    {used : Option (List UInt8 × UInt16)}
    (entries : entryOf data' = Function.update (entryOf data) entry used)
    (outside : ∀ index, (index < 32 * entry.val ∨
      32 * entry.val + 32 ≤ index) → data' index = data index)
    (distinct : Distinct (entryOf data'))
    (terminated : used ≠ none → ∃ index < dirNameLen,
      data' (direntSize * entry + 2 + index) = 0)
    (number : ∀ name, used ≠ some (name, inodeNumUnused)) :
    DirFormed data' := by
  refine ⟨distinct, fun other isUsed => ?_, fun other name => ?_⟩
  · rw [entries] at isUsed
    by_cases same : other = entry
    · rw [same, Function.update_self] at isUsed
      rw [same]
      exact terminated isUsed
    · rw [Function.update_of_ne same] at isUsed
      obtain ⟨index, bound, isNul⟩ := formed.terminated other isUsed
      have apart : other.val ≠ entry.val := fun equal => same (Fin.ext equal)
      refine ⟨index, bound, ?_⟩
      rw [outside _ (by simp only [direntSize, dirNameLen] at *; omega)]
      exact isNul
  · rw [entries]
    by_cases same : other = entry
    · rw [same, Function.update_self]
      exact number name
    · rw [Function.update_of_ne same]
      exact formed.numbers other name

/-- A new name is stored in an unused entry. -/
theorem store
    (formed : DirFormed data) (fits : name.Fits)
    (used : inodeNum ≠ inodeNumUnused)
    (absent : ∀ entry inodeNum,
      entryOf data entry ≠ some (name.bytes, inodeNum)) :
    DirFormed (storeEntry data entry inodeNum name) := by
  refine formed.update (entryOf_storeEntry fits data entry inodeNum)
    (fun index => storeEntry_index entry inodeNum name) ?_ (fun _ => ?_)
    fun other same => ?_
  · rw [entryOf_storeEntry fits]
    exact formed.distinct.put absent
  · refine ⟨dirNameLen - 1, by decide, ?_⟩
    rw [storeEntry_eq_strncpy data entry inodeNum name (by decide), if_pos rfl]
  · exact used (Prod.mk.inj (Option.some.inj same)).2

/-- An entry is cleared. -/
theorem clear (formed : DirFormed data) :
    DirFormed (clearEntry data entry) := by
  refine formed.update (entryOf_clearEntry data entry)
    (fun index => clearEntry_index entry) ?_ (fun some => absurd rfl some) ?_
  · rw [entryOf_clearEntry]
    exact formed.distinct.clear
  · exact fun _ => nofun

end DirFormed

/-- The inode number of a name is what the map of the block has for it. -/
theorem lookupName_eq
    {map : List UInt8 → Option UInt16}
    (represents : SlotMap.Represents (entryOf data) map) (fits : name.Fits) :
    lookupName data name = (map name.bytes).getD inodeNumUnused := by
  unfold lookupName
  cases found : findEntry data name with
  | none =>
      have absent := represents.eq_none_iff.mpr
        ((findEntry_eq_none fits).mp found)
      rw [absent]
      rfl
  | some entry =>
      have listed := entryOf_of_findEntry fits found
      rw [(represents _ _).mpr ⟨entry, listed⟩]
      rfl

/-! ## Calls -/

/-- A directory that a caller has locked, with a block that can be read. -/
structure DirReady (pip : Slot) (state : State) : Prop where
  locked : (state.icache pip).slk = true
  isDir : (state.icache pip).data.type = ftDir
  inside : diskIndex ((state.icache pip).data.addrs 0) < totalBlocks
  unlocked : (state.icache pip).data.addrs 0 ∉ state.held
  room : state.held.length < Buf.nBlockBuf

namespace DirReady

variable (ready : DirReady pip state)

include ready

theorem block (caller : String) :
    (dirBlock pip caller).Runs state
      ((state.icache pip).data.addrs 0, state.dirData pip)
      (state.setHeld ((state.icache pip).data.addrs 0 :: state.held)) := by
  simp only [dirBlock, Program.runs_bind, runs_getInode, Program.runs_assert,
    Program.runs_pure, decide_eq_true_eq]
  exact ⟨_, _, ⟨rfl, rfl⟩, (), _, ⟨ready.locked, rfl⟩, (), _,
    ⟨ready.isDir, rfl⟩, _, _,
    bufRead_total ready.unlocked ready.room ready.inside, rfl, rfl⟩

omit ready in
/-- A buffer is released after it was read. -/
theorem release :
    (bufRelease ((state.icache pip).data.addrs 0)).Runs
      (state.setHeld ((state.icache pip).data.addrs 0 :: state.held)) ()
      state := by
  have run := @bufRelease_total (state.setHeld
    ((state.icache pip).data.addrs 0 :: state.held)) _ List.mem_cons_self
  rwa [bufRelease_after_read run] at run

omit ready in
/-- A buffer is written and released after it was read. -/
theorem write (data : Block) :
    ∃ middle, (bufWrite ((state.icache pip).data.addrs 0) data).Runs
        (state.setHeld ((state.icache pip).data.addrs 0 :: state.held)) ()
        middle ∧
      (bufRelease ((state.icache pip).data.addrs 0)).Runs middle ()
        (state.setDisk (diskIndex ((state.icache pip).data.addrs 0)) data) := by
  have written := @bufWrite_total (state.setHeld
    ((state.icache pip).data.addrs 0 :: state.held)) _ List.mem_cons_self data
  have released := @bufRelease_total ((state.setHeld
    ((state.icache pip).data.addrs 0 :: state.held)).setDisk
      (diskIndex ((state.icache pip).data.addrs 0)) data) _ List.mem_cons_self
  rw [bufRelease_after_write written released] at released
  exact ⟨_, written, released⟩

/-- `dir_search_entry` looks the name up. -/
theorem search (name : CString) :
    (dirSearchEntry pip name).Runs state
      (lookupName (state.dirData pip) name) state := by
  unfold dirSearchEntry
  rw [(ready.block _).bind_iff]
  unfold lookupName findEntry
  dsimp only
  split
  · next entry found =>
    rw [found]
    exact Program.runs_bind.mpr ⟨(), _, release,
      Program.runs_pure.mpr ⟨rfl, rfl⟩⟩
  · next absent =>
    rw [absent]
    exact Program.runs_bind.mpr ⟨(), _, release,
      Program.runs_pure.mpr ⟨rfl, rfl⟩⟩

/-- `dir_add_entry` fails if the name is listed or no entry is unused. -/
theorem addFails
    (fits : name.Fits) (fails : lookupName (state.dirData pip) name ≠
      inodeNumUnused ∨ freeEntry (state.dirData pip) = none)
    (inodeNum : UInt16) :
    (dirAddEntry pip inodeNum name).Runs state 1024 state := by
  have search := ready.search name
  simp only [dirAddEntry, Program.runs_bind, runs_getInode,
    Program.runs_assert, decide_eq_true_eq]
  refine ⟨_, _, ⟨rfl, rfl⟩, (), _, ⟨ready.locked, rfl⟩, (), _,
    ⟨ready.isDir, rfl⟩, ?_⟩
  rw [if_neg (Nat.not_le_of_lt fits.short), search.bind_iff]
  by_cases found : lookupName (state.dirData pip) name ≠ inodeNumUnused
  · rw [if_pos found]
    exact Program.runs_pure.mpr ⟨rfl, rfl⟩
  · have full := fails.resolve_left found
    rw [if_neg found]
    simp only [dirStoreEntry, Program.runs_bind, runs_getInode]
    refine ⟨_, _, ⟨rfl, rfl⟩, _, _,
      bufRead_total ready.unlocked ready.room ready.inside, ?_⟩
    unfold freeEntry State.dirData at full
    rw [full]
    exact Program.runs_bind.mpr ⟨(), _, release,
      Program.runs_pure.mpr ⟨rfl, rfl⟩⟩

/-- `dir_add_entry` stores a new name in the first unused entry. -/
theorem add
    (fits : name.Fits)
    (absent : lookupName (state.dirData pip) name = inodeNumUnused)
    (free : freeEntry (state.dirData pip) = some entry) (inodeNum : UInt16) :
    (dirAddEntry pip inodeNum name).Runs state
      (UInt32.ofNat (direntSize * entry))
      (state.addEntry pip entry inodeNum name) := by
  have search := ready.search name
  have found := free
  unfold freeEntry State.dirData at found
  simp only [dirAddEntry, Program.runs_bind, runs_getInode,
    Program.runs_assert, decide_eq_true_eq]
  refine ⟨_, _, ⟨rfl, rfl⟩, (), _, ⟨ready.locked, rfl⟩, (), _,
    ⟨ready.isDir, rfl⟩, ?_⟩
  rw [if_neg (Nat.not_le_of_lt fits.short), search.bind_iff,
    if_neg (not_not.mpr absent)]
  obtain ⟨middle, written, released⟩ :=
    @write state pip (storeEntry (state.dirData pip) entry inodeNum name)
  simp only [dirStoreEntry, Program.runs_bind, runs_getInode]
  refine ⟨_, _, ⟨rfl, rfl⟩, _, _,
    bufRead_total ready.unlocked ready.room ready.inside, ?_⟩
  rw [found]
  exact Program.runs_bind.mpr ⟨(), _, written, Program.runs_bind.mpr
    ⟨(), _, released, Program.runs_bind.mpr ⟨(), _, runs_modifyData.mpr rfl,
      Program.runs_pure.mpr ⟨rfl, rfl⟩⟩⟩⟩

/-- `dir_delete_entry` does nothing if the name is not listed. -/
theorem deleteFails (absent : findEntry (state.dirData pip) name = none) :
    (dirDeleteEntry pip name).Runs state inodeNumUnused state := by
  unfold dirDeleteEntry
  rw [(ready.block _).bind_iff]
  unfold findEntry at absent
  dsimp only
  rw [absent]
  exact Program.runs_bind.mpr ⟨(), _, release, Program.runs_pure.mpr ⟨rfl, rfl⟩⟩

/-- `dir_delete_entry` clears the entry of the name. -/
theorem delete (found : findEntry (state.dirData pip) name = some entry) :
    (dirDeleteEntry pip name).Runs state
      (entryInode (state.dirData pip) entry)
      (state.setDisk (diskIndex ((state.icache pip).data.addrs 0))
        (clearEntry (state.dirData pip) entry)) := by
  obtain ⟨middle, written, released⟩ :=
    @write state pip (clearEntry (state.dirData pip) entry)
  unfold dirDeleteEntry
  rw [(ready.block _).bind_iff]
  unfold findEntry at found
  dsimp only
  rw [found]
  exact Program.runs_bind.mpr ⟨(), _, written, Program.runs_bind.mpr
    ⟨(), _, released, Program.runs_pure.mpr ⟨rfl, rfl⟩⟩⟩

/-- `dir_get_entries` copies the first entries in use. -/
theorem getEntries (len : UInt32) :
    (dirGetEntries pip len).Runs state
      (((usedEntries (state.dirData pip)).take (len.toNat / direntSize)).map
        fun entry : EntryIndex => (List.range direntSize).map fun index =>
          state.dirData pip (direntSize * entry + index)) state := by
  unfold dirGetEntries
  rw [(ready.block _).bind_iff]
  exact Program.runs_bind.mpr ⟨(), _, release, Program.runs_pure.mpr ⟨rfl, rfl⟩⟩

end DirReady

/-! ## Sequences of calls -/

/-- The calls on a directory block. -/
inductive DirCall
  | search (name : CString)
  | add (inodeNum : UInt16) (name : CString)
  | delete (name : CString)
  | getEntries (len : UInt32)

/-- A run of calls: the state, and the changes of the directory, the latest
first. -/
structure DirRun where
  state : State
  changes : List (Change (List UInt8) UInt16)

/-- One call on a locked directory, with a name that fits and an inode number. -/
inductive DirStep (pip : Slot) : DirRun → DirCall → DirRun → Prop
  | search {before : DirRun} {name : CString} {result : UInt16}
      {after : State} :
      name.Fits →
      (dirSearchEntry pip name).Runs before.state result after →
      DirStep pip before (.search name) ⟨after, before.changes⟩
  | add {before : DirRun} {inodeNum : UInt16} {name : CString}
      {result : UInt32} {after : State} :
      name.Fits → inodeNum ≠ inodeNumUnused →
      (dirAddEntry pip inodeNum name).Runs before.state result after →
      DirStep pip before (.add inodeNum name)
        ⟨after, if result = 1024 then before.changes
          else .added name.bytes inodeNum :: before.changes⟩
  | delete {before : DirRun} {name : CString} {result : UInt16}
      {after : State} :
      name.Fits →
      (dirDeleteEntry pip name).Runs before.state result after →
      DirStep pip before (.delete name)
        ⟨after, .removed name.bytes :: before.changes⟩
  | getEntries {before : DirRun} {len : UInt32}
      {result : List (List UInt8)} {after : State} :
      (dirGetEntries pip len).Runs before.state result after →
      DirStep pip before (.getEntries len) ⟨after, before.changes⟩

/-- Calls on a locked directory whose block is well formed.  At the start its
entries count as added. -/
def dirSystem (pip : Slot) : TransitionSystem DirRun DirCall where
  Init run := DirReady pip run.state ∧ DirFormed (run.state.dirData pip) ∧
    run.changes = SlotMap.filled (entryOf (run.state.dirData pip))
      (List.finRange direntPerBlock)
  Step := DirStep pip

/-- The block of a locked directory holds the map that its changes tell. -/
structure DirHolds (pip : Slot) (run : DirRun) : Prop where
  ready : DirReady pip run.state
  formed : DirFormed (run.state.dirData pip)
  represents : SlotMap.Represents (entryOf (run.state.dirData pip))
    (SlotMap.value run.changes)

theorem DirReady.setDirData
    (ready : DirReady pip state) (data : Block) :
    DirReady pip (state.setDisk (diskIndex ((state.icache pip).data.addrs 0))
      data) :=
  ⟨ready.locked, ready.isDir, ready.inside, ready.unlocked, ready.room⟩

theorem DirReady.addEntry
    (ready : DirReady pip state) (entry : EntryIndex) (inodeNum : UInt16)
    (name : CString) : DirReady pip (state.addEntry pip entry inodeNum name) ∧
      (state.addEntry pip entry inodeNum name).dirData pip =
        storeEntry (state.dirData pip) entry inodeNum name := by
  have inode := @addEntry_icache_self state pip inodeNum name entry
  have sameBlock : ((state.addEntry pip entry inodeNum name).icache
      pip).data.addrs = (state.icache pip).data.addrs := by
    rw [inode]
    rfl
  refine ⟨⟨?_, ?_, ?_, ?_, ready.room⟩, ?_⟩
  · rw [inode]
    exact ready.locked
  · rw [inode]
    exact ready.isDir
  · rw [sameBlock]
    exact ready.inside
  · rw [sameBlock]
    exact ready.unlocked
  · unfold State.dirData
    rw [sameBlock]
    exact Function.update_self _ _ _

namespace DirHolds

variable {run : DirRun}

theorem lookup
    (holds : DirHolds pip run) (fits : name.Fits) :
    lookupName (run.state.dirData pip) name =
      (SlotMap.value run.changes name.bytes).getD inodeNumUnused :=
  lookupName_eq holds.represents fits

/-- A name is listed if the search finds its number. -/
theorem lookup_eq_unused_iff
    (holds : DirHolds pip run) (fits : name.Fits) :
    lookupName (run.state.dirData pip) name = inodeNumUnused ↔
      SlotMap.value run.changes name.bytes = none := by
  rw [holds.lookup fits]
  cases isValue : SlotMap.value run.changes name.bytes with
  | none => exact iff_of_true rfl rfl
  | some inodeNum =>
      obtain ⟨entry, listed⟩ := (holds.represents _ _).mp isValue
      refine iff_of_false (fun unused => ?_) nofun
      rw [show inodeNum = inodeNumUnused from unused] at listed
      exact holds.formed.numbers entry _ listed

/-- A new name is stored. -/
theorem added
    (holds : DirHolds pip run) (fits : name.Fits)
    (used : inodeNum ≠ inodeNumUnused)
    (absent : SlotMap.value run.changes name.bytes = none)
    (free : freeEntry (run.state.dirData pip) = some entry) :
    DirHolds pip ⟨run.state.addEntry pip entry inodeNum name,
      .added name.bytes inodeNum :: run.changes⟩ := by
  obtain ⟨ready, data⟩ := holds.ready.addEntry entry inodeNum name
  refine ⟨ready, ?_, ?_⟩
  · rw [data]
    exact holds.formed.store fits used
      (holds.represents.eq_none_iff.mp absent)
  · rw [data, entryOf_storeEntry fits, SlotMap.value_added]
    exact holds.represents.put (entryOf_of_freeEntry free) absent

/-- The entry of a name is cleared. -/
theorem deleted
    (holds : DirHolds pip run) (fits : name.Fits)
    (found : findEntry (run.state.dirData pip) name = some entry) :
    DirHolds pip ⟨run.state.setDisk
      (diskIndex ((run.state.icache pip).data.addrs 0))
        (clearEntry (run.state.dirData pip) entry),
      .removed name.bytes :: run.changes⟩ := by
  have data : (run.state.setDisk
      (diskIndex ((run.state.icache pip).data.addrs 0))
        (clearEntry (run.state.dirData pip) entry)).dirData pip =
      clearEntry (run.state.dirData pip) entry := Function.update_self _ _ _
  refine ⟨holds.ready.setDirData _, ?_, ?_⟩
  · rw [data]
    exact holds.formed.clear
  · rw [data, entryOf_clearEntry, SlotMap.value_removed]
    exact holds.represents.clear holds.formed.distinct
      (entryOf_of_findEntry fits found)

/-- A name that is not listed can be removed without a change. -/
theorem absent
    (holds : DirHolds pip run) (fits : name.Fits)
    (absent : findEntry (run.state.dirData pip) name = none) :
    DirHolds pip ⟨run.state, .removed name.bytes :: run.changes⟩ := by
  have isNone := holds.represents.eq_none_iff.mpr
    ((findEntry_eq_none fits).mp absent)
  refine ⟨holds.ready, holds.formed, ?_⟩
  have same : Function.update (SlotMap.value run.changes) name.bytes none =
      SlotMap.value run.changes := by
    rw [← isNone]
    exact Function.update_eq_self _ _
  rw [SlotMap.value_removed, same]
  exact holds.represents

/-- Every call keeps the map. -/
theorem step
    {before after : DirRun} {call : DirCall} (holds : DirHolds pip before)
    (step : DirStep pip before call after) : DirHolds pip after := by
  cases step with
  | search fits run =>
      obtain ⟨_, rfl⟩ := (holds.ready.search _).deterministic run
      exact holds
  | @add inodeNum name result _ fits used run =>
      cases free : freeEntry (before.state.dirData pip) with
      | none =>
          obtain ⟨rfl, rfl⟩ := (holds.ready.addFails fits (Or.inr free)
            inodeNum).deterministic run
          exact holds
      | some entry =>
          by_cases listed : lookupName (before.state.dirData pip) name =
              inodeNumUnused
          · obtain ⟨rfl, rfl⟩ := (holds.ready.add fits listed free
              inodeNum).deterministic run
            rw [if_neg (entry_offset_ne entry)]
            exact holds.added fits used
              ((holds.lookup_eq_unused_iff fits).mp listed) free
          · obtain ⟨rfl, rfl⟩ := (holds.ready.addFails fits (Or.inl listed)
              inodeNum).deterministic run
            exact holds
  | @delete name _ _ fits run =>
      cases found : findEntry (before.state.dirData pip) name with
      | none =>
          obtain ⟨_, rfl⟩ := (holds.ready.deleteFails found).deterministic run
          exact holds.absent fits found
      | some entry =>
          obtain ⟨_, rfl⟩ := (holds.ready.delete found).deterministic run
          exact holds.deleted fits found
  | getEntries run =>
      obtain ⟨_, rfl⟩ := (holds.ready.getEntries _).deterministic run
      exact holds

theorem of_reachable (reachable : (dirSystem pip).Reachable run) :
    DirHolds pip run := by
  refine reachable.invariant ?_ fun before call after holds _ step =>
    holds.step step
  rintro run ⟨ready, formed, isStart⟩
  refine ⟨ready, formed, ?_⟩
  rw [isStart]
  exact SlotMap.represents_filled formed.distinct List.mem_finRange

end DirHolds

/-! ## The map -/

theorem freeEntry_eq_some_iff :
    freeEntry data = some entry ↔ entryOf data entry = none ∧
      ∀ lower < entry, entryOf data lower ≠ none := by
  have lowest : ∀ entry, freeEntry data = some entry →
      ∀ lower < entry, entryOf data lower ≠ none := by
    intro entry free lower below unused
    obtain ⟨_, index, bound, isEntry, before⟩ :=
      List.find?_eq_some_iff_getElem.mp free
    rw [List.getElem_finRange] at isEntry
    have isIndex : entry.val = index := by
      rw [← isEntry]
      rfl
    have earlier := before lower.val (by
      rw [← isIndex]
      exact below)
    rw [List.getElem_finRange] at earlier
    simp [entryOf_eq_none.mp unused] at earlier
  refine ⟨fun free => ⟨entryOf_of_freeEntry free, lowest entry free⟩, ?_⟩
  rintro ⟨unused, used⟩
  cases free : freeEntry data with
  | none => exact absurd unused (freeEntry_eq_none.mp free entry)
  | some other =>
      rcases lt_trichotomy other entry with below | same | above
      · exact absurd (entryOf_of_freeEntry free) (used other below)
      · rw [same]
      · exact absurd unused (lowest other free entry above)

/-- The first entries in use, in the order of the slots. -/
structure FirstEntries (data : Block) (count : Nat)
    (entries : List EntryIndex) : Prop where
  sorted : entries.Pairwise (· < ·)
  used : ∀ entry ∈ entries, entryOf data entry ≠ none
  first : ∀ entry ∈ entries, ∀ lower < entry, entryOf data lower ≠ none →
    lower ∈ entries
  count : entries.length = min count
    (Finset.univ.filter fun entry => entryOf data entry ≠ none).card

theorem mem_usedEntries :
    entry ∈ usedEntries data ↔ entryOf data entry ≠ none := by
  unfold usedEntries
  rw [List.mem_filter, decide_eq_true_eq]
  exact (and_iff_right (List.mem_finRange entry)).trans
    (not_congr entryOf_eq_none).symm

theorem sorted_usedEntries (data : Block) :
    (usedEntries data).Pairwise (· < ·) :=
  (List.pairwise_lt_finRange direntPerBlock).filter _

theorem firstEntries_take (data : Block) (count : Nat) :
    FirstEntries data count ((usedEntries data).take count) := by
  have sorted := sorted_usedEntries data
  refine ⟨sorted.sublist (List.take_sublist _ _), fun entry member =>
    mem_usedEntries.mp (List.mem_of_mem_take member),
    fun entry member lower below isUsed => ?_, ?_⟩
  · have isMember := mem_usedEntries.mpr isUsed
    rw [← List.take_append_drop count (usedEntries data)] at isMember sorted
    rcases List.mem_append.mp isMember with inFront | behind
    · exact inFront
    · have ordered := (List.pairwise_append.mp sorted).2.2 entry member lower
        behind
      exact absurd (ordered.trans below) (lt_irrefl _)
  · rw [List.length_take]
    congr 1
    have distinct : (usedEntries data).Nodup :=
      sorted.imp fun below => ne_of_lt below
    rw [← List.toFinset_card_of_nodup distinct]
    congr 1
    ext entry
    rw [List.mem_toFinset, mem_usedEntries, Finset.mem_filter]
    exact ⟨fun isUsed => ⟨Finset.mem_univ entry, isUsed⟩, And.right⟩

/-- What the calls on a directory block do that holds a map.  The entries are
those of the state. -/
structure MapCalls (pip : Slot) (state : State)
    (map : List UInt8 → Option UInt16) : Prop where
  formed : DirFormed (state.dirData pip)
  search : ∀ name : CString, name.Fits → (dirSearchEntry pip name).Runs state
    ((map name.bytes).getD inodeNumUnused) state
  addFails : ∀ (name : CString) inodeNum, name.Fits →
    (map name.bytes ≠ none ∨
      ∀ entry, entryOf (state.dirData pip) entry ≠ none) →
    (dirAddEntry pip inodeNum name).Runs state 1024 state
  add : ∀ (name : CString) inodeNum entry, name.Fits → map name.bytes = none →
    entryOf (state.dirData pip) entry = none →
    (∀ lower < entry, entryOf (state.dirData pip) lower ≠ none) →
    ∃ final, (dirAddEntry pip inodeNum name).Runs state
        (UInt32.ofNat (direntSize * entry)) final ∧
      UInt32.ofNat (direntSize * entry) ≠ 1024 ∧
      entryOf (final.dirData pip) = Function.update
        (entryOf (state.dirData pip)) entry (some (name.bytes, inodeNum))
  delete : ∀ name : CString, name.Fits → ∃ final,
    (dirDeleteEntry pip name).Runs state
      ((map name.bytes).getD inodeNumUnused) final ∧
    ∀ entry, entryOf (final.dirData pip) entry =
      if (entryOf (state.dirData pip) entry).map Prod.fst = some name.bytes
        then none else entryOf (state.dirData pip) entry
  getEntries : ∀ len, ∃ entries,
    FirstEntries (state.dirData pip) (len.toNat / direntSize) entries ∧
    (dirGetEntries pip len).Runs state (entries.map fun entry : EntryIndex =>
      (List.range direntSize).map fun index =>
        state.dirData pip (direntSize * entry + index)) state

/-- A locked directory with an empty block. -/
def blankDirectory : State where
  disk _ := fun _ => 0
  held := []
  icache _ := ⟨⟨ftDir, 0, 0, 1, 0, fun _ => 131⟩, inodeRoot, 1, true, true⟩
  lkIcache := false

theorem entryOf_blank (entry : EntryIndex) :
    entryOf (fun _ => 0) entry = none := by
  rw [entryOf_eq_none, entryName_eq_spelling, spelling_succ]
  exact if_neg fun some => some rfl

end Fs
end WhuOs
