import WhuOs.Fs.Paths

/-!
# Entries for inodes

Adding an entry to a directory and deleting one change the block of the
directory and nothing else on disk.
-/

namespace WhuOs
namespace Fs

open Library
open Program (Runs)

variable {state middle final : State} {opened : Slot → Nat}
variable {base : UInt16 → Nat} {held : List Slot} {ip : Slot}
variable {inodeNum : UInt16} {name : CString}

/-- The stored fields of a slot after they were changed and written. -/
theorem storeData_of_runs
    {change : Dinode → Dinode} {result result' : Unit}
    (modified : (modifyData ip change).Runs state result middle)
    (written : (inodeRw ip true).Runs middle result' final) :
    (state.icache ip).slk = true ∧
      final = state.storeData ip (change (state.icache ip).data) := by
  rw [runs_modifyData] at modified
  subst modified
  obtain ⟨locked, rfl⟩ := inodeRw_write_stores written
  rw [setData_icache_self] at locked ⊢
  exact ⟨locked, rfl⟩

theorem addEntry_icache_self (entry : EntryIndex) :
    (state.addEntry ip entry inodeNum name).icache ip =
      (state.icache ip).setData ((state.icache ip).data.setSize
        (UInt32.ofNat (direntSize * entry) + 32)) := by
  unfold State.addEntry
  rw [setData_icache_self]
  rfl

theorem addEntry_icache_of_ne
    {other : Slot} (differs : other ≠ ip) (entry : EntryIndex) :
    (state.addEntry ip entry inodeNum name).icache other =
      state.icache other := by
  unfold State.addEntry
  rw [setData_icache_of_ne differs]
  rfl

/-- The size of a directory after a name was added to it, if it could be. -/
def addedSize (data : Block) (name : CString) (size : UInt32) : UInt32 :=
  match addedEntry data name with
  | some entry => UInt32.ofNat (direntSize * entry) + 32
  | none => size

theorem dirAddEntry_size
    {offset : UInt32}
    (run : (dirAddEntry ip inodeNum name).Runs state offset final) :
    (final.icache ip).data.size =
      addedSize (state.dirData ip) name (state.icache ip).data.size := by
  unfold addedSize
  obtain ⟨_, _, ⟨_, rfl, fails⟩ | ⟨entry, _, _, added, rfl⟩⟩ :=
    dirAddEntry_added run
  · rw [fails]
  · rw [added, addEntry_icache_self]
    rfl

/-- The size of a new directory whose block held `data`. -/
def ownSize (data : Block) (node : UInt16) : UInt32 :=
  addedSize (addName data node dot) dotDot (addedSize data dot 0)

/-- The block of a slot after a name was added to it, if it could be. -/
theorem Live.addsName
    {offset : UInt32} (live : Live base opened held state)
    (used : (state.icache ip).inodeNum ≠ inodeNumUnused)
    (valid : (state.icache ip).valid = true)
    (run : (dirAddEntry ip inodeNum name).Runs state offset final) :
    final.disk = Function.update state.disk
        (diskIndex ((state.icache ip).data.addrs 0))
        (addName (state.dirData ip) inodeNum name) ∧
      (∃ size, final.icache ip = (state.icache ip).setData
        ((state.icache ip).data.setSize size)) ∧
      (∀ other, other ≠ ip → final.icache other = state.icache other) ∧
      Live base opened held final ∧
      Frame opened (ChangesSlot state ip) state final := by
  obtain ⟨_, _, ⟨_, rfl, same⟩ |
    ⟨entry, _, short, _, absent, free, reached⟩⟩ := dirAddEntry_runs run
  · rw [same]
    exact ⟨(Function.update_eq_self _ _).symm,
      ⟨(final.icache ip).data.size, rfl⟩, fun _ _ => rfl, live, Frame.refl⟩
  · obtain ⟨live', frame⟩ := live.addEntry used valid entry inodeNum name
    have stores : addName (state.dirData ip) inodeNum name =
        storeEntry (state.dirData ip) entry inodeNum name := by
      unfold addName
      rw [if_neg (Nat.not_le.mpr short), if_neg (not_not.mpr absent), free]
    rw [stores, reached]
    exact ⟨rfl, ⟨_, addEntry_icache_self entry⟩,
      fun other differs => addEntry_icache_of_ne differs entry, live', frame⟩

/-- The block of a directory is written and nothing else on disk. -/
structure WritesDir (state final : State) (dir : UInt16) (data : Block) :
    Prop where
  stored : ∀ inodeNum : UInt16, inodeNum.toNat < maxInodes →
    final.dinodeAt inodeNum = state.dinodeAt inodeNum
  block : final.dirBlock dir = data
  disk : ∀ index, index ≠ diskIndex ((state.dinodeAt dir).addrs 0) →
    final.disk index = state.disk index

/-- A directory with another number of links. -/
structure CountsDir (base : UInt16 → Nat) (opened : Slot → Nat)
    (held : List Slot) (state final : State) (dir nlink : UInt16) : Prop where
  live : Live base opened held final
  frame : Frame opened (· = dir) state final
  type : (final.dinodeAt dir).type = (state.dinodeAt dir).type
  nlink : (final.dinodeAt dir).nlink = nlink
  first : (final.dinodeAt dir).addrs 0 = (state.dinodeAt dir).addrs 0
  block : final.dirBlock dir = state.dirBlock dir
  disk : ∀ index, 130 ≤ index → final.disk index = state.disk index

section Directory

variable (live : Live base opened held state)
  (used : (state.icache ip).inodeNum ≠ inodeNumUnused)
  (valid : (state.icache ip).valid = true)
  (present : (state.dinodeAt (state.icache ip).inodeNum).addrs 0 ≠ 0)

include live used valid present

theorem Live.writesDir
    {data : Block}
    (written : final.disk = (state.setDisk
      (diskIndex ((state.icache ip).data.addrs 0)) data).disk) :
    WritesDir state final (state.icache ip).inodeNum data := by
  have size : maxInodes = 2048 := rfl
  have moved := live.writeFirst used valid data
  have first := live.sound.slot_first used valid present
  have stored : ∀ other : UInt16, other.toNat < maxInodes →
      final.dinodeAt other = state.dinodeAt other := by
    intro other small
    unfold State.dinodeAt
    rw [written, diskIndex_inodeBlock,
      moved.table _ (by omega) (by omega)]
  refine ⟨stored, ?_, fun index differs => ?_⟩
  · unfold State.dirBlock
    rw [stored _ (live.small used), ← first, written]
    exact Function.update_self _ _ _
  · rw [written]
    rw [← first] at differs
    exact Function.update_of_ne differs _ _

/-- A name was added in an unused entry. -/
theorem Live.namesEntry
    {offset : UInt32}
    (run : (dirAddEntry ip inodeNum name).Runs state offset final)
    (added : offset ≠ 1024) :
    ∃ entry, freeEntry (state.dirBlock (state.icache ip).inodeNum) =
        some entry ∧
      lookupName (state.dirBlock (state.icache ip).inodeNum) name =
        inodeNumUnused ∧
      final = state.addEntry ip entry inodeNum name ∧
      WritesDir state final (state.icache ip).inodeNum
        (storeEntry (state.dirBlock (state.icache ip).inodeNum) entry inodeNum
          name) ∧
      Live base opened held final ∧
      Frame opened (ChangesSlot state ip) state final := by
  have data := live.sound.dirData used valid present
  obtain ⟨_, _, ⟨same, _⟩ | ⟨entry, _, _, _, absent, free, reached⟩⟩ :=
    dirAddEntry_runs run
  · exact absurd same added
  · rw [data] at absent free
    obtain ⟨live', frame⟩ := live.addEntry used valid entry inodeNum name
    have writes : WritesDir state final (state.icache ip).inodeNum
        (storeEntry (state.dirData ip) entry inodeNum name) :=
      live.writesDir used valid present (by rw [reached]; rfl)
    rw [data] at writes
    rw [← reached] at live' frame
    exact ⟨entry, free, absent, reached, writes, live', frame⟩

/-- A name was deleted if it was there. -/
theorem Live.deletesEntry
    {result : UInt16}
    (run : (dirDeleteEntry ip name).Runs state result final) :
    final.icache = state.icache ∧ Live base opened held final ∧
      Frame opened (ChangesSlot state ip) state final ∧
      WritesDir state final (state.icache ip).inodeNum
        (match findEntry (state.dirBlock (state.icache ip).inodeNum) name with
          | some entry =>
              clearEntry (state.dirBlock (state.icache ip).inodeNum) entry
          | none => state.dirBlock (state.icache ip).inodeNum) := by
  have data := live.sound.dirData used valid present
  rcases dirDeleteEntry_runs run with ⟨absent, rfl⟩ | ⟨entry, found, rfl⟩
  · rw [data] at absent
    rw [absent]
    exact ⟨rfl, live, Frame.refl, fun _ _ => rfl, rfl, fun _ _ => rfl⟩
  · obtain ⟨live', frame⟩ := live.transferred (live.writeFirst used valid
      (clearEntry (state.dirData ip) entry))
    have writes : WritesDir state _ (state.icache ip).inodeNum
        (clearEntry (state.dirData ip) entry) :=
      live.writesDir used valid present rfl
    rw [data] at found
    rw [found]
    rw [data] at writes live' frame ⊢
    exact ⟨rfl, live', frame, writes⟩

/-- Storing the number of links of a directory. -/
theorem Live.countsDir (nlink : UInt16) :
    CountsDir base opened held state (state.storeData ip
      ((state.icache ip).data.setNlink nlink)) (state.icache ip).inodeNum
        nlink := by
  have fewer : ∀ k, ((state.icache ip).data.setNlink nlink).addrs k =
      (state.icache ip).data.addrs k ∨
      ((state.icache ip).data.setNlink nlink).addrs k = 0 :=
    fun _ => Or.inl rfl
  obtain ⟨live', frame⟩ := live.store used valid fewer
  have backs := live.sound.backed ip used valid
  have first := live.sound.slot_first used valid present
  have stored : (state.storeData ip ((state.icache ip).data.setNlink
      nlink)).dinodeAt (state.icache ip).inodeNum =
      (state.icache ip).data.setNlink nlink :=
    dinodeAt_storeDinode_self _ _
  have table : ∀ index, 130 ≤ index → (state.storeData ip
      ((state.icache ip).data.setNlink nlink)).disk index = state.disk index :=
    fun index high => live.sound.storeData_disk used (Or.inr high)
  have sameFirst : ((state.icache ip).data.setNlink nlink).addrs 0 =
      (state.dinodeAt (state.icache ip).inodeNum).addrs 0 := first
  refine ⟨live', frame, ?_, ?_, ?_, ?_, table⟩
  · rw [stored]
    exact backs.type.symm
  · rw [stored]
    rfl
  · rw [stored, sameFirst]
  · have marked := live.sound.marked_first (live.small used) present
    have behind := marked.1
    unfold State.dirBlock
    rw [stored, sameFirst, table _ (by rw [marked.diskIndex_eq]; omega)]

end Directory

end Fs
end WhuOs
