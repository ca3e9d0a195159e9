import WhuOs.Fs.InodeTable

/-!
# Inodes through the cache

The current fields of an inode are those of its slot if the slot is filled and
those on disk otherwise.  A slot that nobody references may be taken over, and
the fields go back to those on disk.
-/

namespace WhuOs
namespace Fs

open Library

variable {state final : State}

/-- The slot of an inode. -/
def slotOf (state : State) (inodeNum : UInt16) : Option Slot :=
  (List.finRange nInode).find? fun ip =>
    (state.icache ip).inodeNum = inodeNum

theorem slotOf_eq_some
    {inodeNum : UInt16} {ip : Slot}
    (found : slotOf state inodeNum = some ip) :
    (state.icache ip).inodeNum = inodeNum := by
  simpa using List.find?_some found

theorem slotOf_eq_none
    {inodeNum : UInt16}
    (absent : slotOf state inodeNum = none) (ip : Slot) :
    (state.icache ip).inodeNum ≠ inodeNum := by
  simpa using List.find?_eq_none.mp absent ip (List.mem_finRange ip)

/-- Every inode has at most one slot. -/
def UniqueSlots (state : State) : Prop :=
  ∀ ip ip', (state.icache ip).inodeNum ≠ inodeNumUnused →
    (state.icache ip).inodeNum = (state.icache ip').inodeNum → ip = ip'

/-- The first slot of an inode is its only one. -/
theorem slotOf_of_unique
    {ip : Slot} (unique : UniqueSlots state)
    (used : (state.icache ip).inodeNum ≠ inodeNumUnused) :
    slotOf state (state.icache ip).inodeNum = some ip := by
  cases found : slotOf state (state.icache ip).inodeNum with
  | none => exact absurd rfl (slotOf_eq_none found ip)
  | some other =>
      have number := slotOf_eq_some found
      rw [unique ip other used number.symm]

/-- Slots that hold the same inodes are found alike. -/
theorem slotOf_congr
    (same : ∀ ip, (final.icache ip).inodeNum = (state.icache ip).inodeNum)
    (inodeNum : UInt16) : slotOf final inodeNum = slotOf state inodeNum := by
  unfold slotOf
  simp only [same]

theorem UniqueSlots.congr
    (unique : UniqueSlots state)
    (same : ∀ ip, (final.icache ip).inodeNum =
      (state.icache ip).inodeNum) :
    UniqueSlots final := by
  intro ip ip' used equal
  rw [same] at used
  rw [same, same] at equal
  exact unique ip ip' used equal

/-! ## Current fields -/

/-- The current fields of an inode. -/
def State.dinodeOf (state : State) (inodeNum : UInt16) : Dinode :=
  match slotOf state inodeNum with
  | some ip => (state.locked ip).data
  | none => state.dinodeAt inodeNum

theorem locked_data_of_valid
    {ip : Slot} (valid : (state.icache ip).valid = true) :
    (state.locked ip).data = (state.icache ip).data :=
  if_pos valid

theorem dinodeOf_slot
    {ip : Slot} (unique : UniqueSlots state)
    (used : (state.icache ip).inodeNum ≠ inodeNumUnused) :
    state.dinodeOf (state.icache ip).inodeNum = (state.locked ip).data := by
  unfold State.dinodeOf
  rw [slotOf_of_unique unique used]

theorem dinodeOf_valid
    {ip : Slot} (unique : UniqueSlots state)
    (used : (state.icache ip).inodeNum ≠ inodeNumUnused)
    (valid : (state.icache ip).valid = true) :
    state.dinodeOf (state.icache ip).inodeNum = (state.icache ip).data := by
  rw [dinodeOf_slot unique used, locked_data_of_valid valid]

theorem dinodeOf_absent
    {inodeNum : UInt16}
    (absent : ∀ ip, (state.icache ip).inodeNum ≠ inodeNum) :
    state.dinodeOf inodeNum = state.dinodeAt inodeNum := by
  unfold State.dinodeOf
  cases found : slotOf state inodeNum with
  | none => rfl
  | some ip => exact absurd (slotOf_eq_some found) (absent ip)

/-- Changes of the disk outside the inode table. -/
theorem dinodeOf_congr
    (sameCache : final.icache = state.icache)
    (sameTable : ∀ inodeNum, final.dinodeAt inodeNum =
      state.dinodeAt inodeNum) :
    final.dinodeOf = state.dinodeOf := by
  have sameSlot : ∀ inodeNum, slotOf final inodeNum = slotOf state inodeNum :=
    slotOf_congr fun ip => by rw [sameCache]
  funext inodeNum
  unfold State.dinodeOf
  rw [sameSlot]
  cases slotOf state inodeNum with
  | none => exact sameTable inodeNum
  | some ip => simp only [State.locked, sameCache, sameTable]

/-- A change of a slot that keeps its inode changes the fields of this inode
only. -/
theorem dinodeOf_setInode
    {ip : Slot} {inode : Inode} (unique : UniqueSlots state)
    (used : (state.icache ip).inodeNum ≠ inodeNumUnused)
    (sameNum : inode.inodeNum = (state.icache ip).inodeNum) :
    (state.setInode ip inode).dinodeOf =
      Function.update state.dinodeOf (state.icache ip).inodeNum
        (if inode.valid then inode.data
          else state.dinodeAt (state.icache ip).inodeNum) := by
  have numbers : ∀ other, ((state.setInode ip inode).icache other).inodeNum =
      (state.icache other).inodeNum := by
    intro other
    by_cases same : other = ip
    · subst same
      simpa using sameNum
    · simp [same]
  funext inodeNum
  by_cases same : inodeNum = (state.icache ip).inodeNum
  · subst same
    rw [Function.update_self]
    unfold State.dinodeOf
    rw [slotOf_congr numbers, slotOf_of_unique unique used]
    simp only [State.locked, State.setInode_icache, Function.update_self,
      sameNum]
    rfl
  · rw [Function.update_of_ne same]
    unfold State.dinodeOf
    rw [slotOf_congr numbers]
    cases found : slotOf state inodeNum with
    | none => rfl
    | some other =>
        have differs : other ≠ ip := by
          rintro rfl
          exact same (slotOf_eq_some found).symm
        simp only [State.locked, State.setInode_icache,
          Function.update_of_ne differs]
        rfl

/-- The numbers of the slots after a slot was changed. -/
theorem inodeNum_setInode
    {ip : Slot} {inode : Inode}
    (sameNum : inode.inodeNum = (state.icache ip).inodeNum) (other : Slot) :
    ((state.setInode ip inode).icache other).inodeNum =
      (state.icache other).inodeNum := by
  by_cases same : other = ip
  · subst same
    simpa using sameNum
  · simp [same]

/-- A change of a slot that keeps its inode and current fields. -/
theorem dinodeOf_setInode_same
    {ip : Slot} {inode : Inode} (unique : UniqueSlots state)
    (used : (state.icache ip).inodeNum ≠ inodeNumUnused)
    (sameNum : inode.inodeNum = (state.icache ip).inodeNum)
    (sameData : (if inode.valid then inode.data
      else state.dinodeAt (state.icache ip).inodeNum) =
        (state.locked ip).data) :
    (state.setInode ip inode).dinodeOf = state.dinodeOf := by
  rw [dinodeOf_setInode unique used sameNum, sameData,
    ← dinodeOf_slot unique used]
  exact Function.update_eq_self _ _

theorem inodeNum_setData (ip : Slot) (data : Dinode) (other : Slot) :
    ((state.setData ip data).icache other).inodeNum =
      (state.icache other).inodeNum := by
  have sameNum : ((state.icache ip).setData data).inodeNum =
      (state.icache ip).inodeNum := rfl
  exact inodeNum_setInode sameNum other

/-- Changing the fields in a filled slot. -/
theorem dinodeOf_setData
    {ip : Slot} {data : Dinode} (unique : UniqueSlots state)
    (used : (state.icache ip).inodeNum ≠ inodeNumUnused)
    (valid : (state.icache ip).valid = true) :
    (state.setData ip data).dinodeOf =
      Function.update state.dinodeOf (state.icache ip).inodeNum data := by
  have sameNum : ((state.icache ip).setData data).inodeNum =
      (state.icache ip).inodeNum := rfl
  have changed := dinodeOf_setInode unique used sameNum
  rwa [Inode.setData_valid, if_pos valid, Inode.setData_data] at changed

theorem setData_icache_self (ip : Slot) (data : Dinode) :
    (state.setData ip data).icache ip = (state.icache ip).setData data := by
  unfold State.setData
  rw [State.setInode_icache, Function.update_self]

theorem setData_icache_of_ne
    {ip other : Slot} (differs : other ≠ ip) (data : Dinode) :
    (state.setData ip data).icache other = state.icache other := by
  unfold State.setData
  rw [State.setInode_icache, Function.update_of_ne differs]

/-- The state after a slot was taken over for an inode. -/
def State.takeOver (state : State) (ip : Slot) (inodeNum : UInt16) : State :=
  state.setInode ip
    ⟨(state.icache ip).data, inodeNum, 1, false, (state.icache ip).slk⟩

theorem UniqueSlots.takeOver
    {ip : Slot} {inodeNum : UInt16} (unique : UniqueSlots state)
    (absent : ∀ other, (state.icache other).inodeNum ≠ inodeNum) :
    UniqueSlots (state.takeOver ip inodeNum) := by
  intro slot slot' used equal
  unfold State.takeOver at used equal
  by_cases same : slot = ip
  · subst same
    by_cases same' : slot' = slot
    · exact same'.symm
    · simp only [State.setInode_icache, Function.update_self,
        Function.update_of_ne same'] at equal
      exact absurd equal.symm (absent slot')
  · by_cases same' : slot' = ip
    · subst same'
      simp only [State.setInode_icache, Function.update_self,
        Function.update_of_ne same] at equal
      exact absurd equal (absent slot)
    · simp only [State.setInode_icache, Function.update_of_ne same,
        Function.update_of_ne same'] at used equal
      exact unique slot slot' used equal

/-- Taking over a slot for an inode that is not cached.  The inode the slot was
used for goes back to its fields on disk. -/
theorem dinodeOf_takeOver
    (ip : Slot) {inodeNum other : UInt16} (unique : UniqueSlots state)
    (absent : ∀ slot, (state.icache slot).inodeNum ≠ inodeNum)
    (used : other ≠ inodeNumUnused) :
    (state.takeOver ip inodeNum).dinodeOf other = state.dinodeOf other ∨
    (other = (state.icache ip).inodeNum ∧
      (state.takeOver ip inodeNum).dinodeOf other =
        state.dinodeAt other) := by
  by_cases sameNew : other = inodeNum
  · subst sameNew
    left
    have number : ((state.takeOver ip other).icache ip).inodeNum = other := by
      simp [State.takeOver]
    have slot := dinodeOf_slot (unique.takeOver absent : UniqueSlots
      (state.takeOver ip other)) (number.symm ▸ used)
    rw [number] at slot
    rw [slot, dinodeOf_absent absent]
    simp only [State.takeOver, State.locked, State.setInode_icache,
      Function.update_self, Bool.false_eq_true, if_false]
    rfl
  · by_cases cached : ∃ slot, (state.icache slot).inodeNum = other
    · obtain ⟨slot, rfl⟩ := cached
      by_cases same : slot = ip
      · subst same
        right
        refine ⟨rfl, dinodeOf_absent fun another number => ?_⟩
        unfold State.takeOver at number
        by_cases sameSlot : another = slot
        · subst sameSlot
          simp only [State.setInode_icache, Function.update_self] at number
          exact sameNew number.symm
        · simp only [State.setInode_icache,
            Function.update_of_ne sameSlot] at number
          exact sameSlot (unique slot another used number.symm).symm
      · left
        have kept : (state.takeOver ip inodeNum).icache slot =
            state.icache slot := by
          unfold State.takeOver
          rw [State.setInode_icache, Function.update_of_ne same]
        have found := dinodeOf_slot (unique.takeOver absent : UniqueSlots
          (state.takeOver ip inodeNum))
          (kept.symm ▸ used)
        rw [kept] at found
        rw [found, dinodeOf_slot unique used]
        simp only [State.locked, kept]
        rfl
    · left
      rw [dinodeOf_absent fun slot number => cached ⟨slot, number⟩]
      refine dinodeOf_absent fun slot number => ?_
      unfold State.takeOver at number
      by_cases same : slot = ip
      · subst same
        simp only [State.setInode_icache, Function.update_self] at number
        exact sameNew number.symm
      · simp only [State.setInode_icache,
          Function.update_of_ne same] at number
        exact cached ⟨slot, number⟩

end Fs
end WhuOs
