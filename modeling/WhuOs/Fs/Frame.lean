import WhuOs.Fs.Entries
import WhuOs.Fs.FreeData
import WhuOs.Fs.InodeArea
import WhuOs.Fs.References

/-!
# What becomes of the other inodes

A call changes the inodes it works on.  Every other inode keeps its fields on
disk and its blocks with their contents.  Its fields in the cache are kept too
while it is open; otherwise its slot may be taken over, and what was not stored
is lost.
-/

namespace WhuOs
namespace Fs

open Library
open Program (Runs)

variable {state middle final : State} {opened : Slot → Nat}
variable {changed : UInt16 → Prop}

/-- An inode with an open file. -/
def OpenInode (opened : Slot → Nat) (state : State) (inodeNum : UInt16) :
    Prop :=
  ∃ ip, opened ip ≠ 0 ∧ (state.icache ip).inodeNum = inodeNum

/-- The inodes of open files stay in their slots. -/
def SameOpen (opened : Slot → Nat) (state final : State) : Prop :=
  ∀ ip, opened ip ≠ 0 →
    (final.icache ip).inodeNum = (state.icache ip).inodeNum

/-- An inode that a call does not change. -/
structure Kept (opened : Slot → Nat) (state final : State)
    (inodeNum : UInt16) : Prop where
  stored : final.dinodeAt inodeNum = state.dinodeAt inodeNum
  fields : Backs (final.dinodeOf inodeNum) (state.dinodeOf inodeNum)
  blocks : ∀ k path, path.length ≤ addrLevel k →
    final.root (inodeNum, k) = state.root (inodeNum, k) →
    final.place (inodeNum, k) path = state.place (inodeNum, k) path ∧
    (state.place (inodeNum, k) path ≠ 0 →
      final.disk (diskIndex (state.place (inodeNum, k) path)) =
        state.disk (diskIndex (state.place (inodeNum, k) path)))
  current : OpenInode opened state inodeNum →
    final.dinodeOf inodeNum = state.dinodeOf inodeNum

theorem OpenInode.congr
    {inodeNum : UInt16} (isOpen : OpenInode opened state inodeNum)
    (same : SameOpen opened state final) :
    OpenInode opened final inodeNum := by
  obtain ⟨ip, opened, rfl⟩ := isOpen
  exact ⟨ip, opened, same ip opened⟩

/-- Block numbers that may have gone back to those on disk. -/
theorem root_of_fields
    {inodeNum : UInt16}
    (fields : Backs (final.dinodeOf inodeNum) (state.dinodeOf inodeNum))
    (k : Fin nAddrs) :
    final.root (inodeNum, k) = state.root (inodeNum, k) ∨
      final.root (inodeNum, k) = 0 := by
  unfold State.root
  split
  · exact fields.addrs k
  · exact Or.inl rfl

/-- Changes of the bitmaps and of the inode table leave the blocks alone. -/
theorem Sound.sameBlocks
    {inodeNum : UInt16} {k : Fin nAddrs} {path : List ChildIndex}
    (sound : Sound state)
    (data : ∀ index, 131 ≤ index → final.disk index = state.disk index)
    (bound : path.length ≤ addrLevel k)
    (sameRoot : final.root (inodeNum, k) = state.root (inodeNum, k)) :
    final.place (inodeNum, k) path = state.place (inodeNum, k) path ∧
    (state.place (inodeNum, k) path ≠ 0 →
      final.disk (diskIndex (state.place (inodeNum, k) path)) =
        state.disk (diskIndex (state.place (inodeNum, k) path))) := by
  have sameDisk : ∀ block, state.Marked block →
      final.disk (diskIndex block) = state.disk (diskIndex block) :=
    fun block marked => data _ (by rw [marked.diskIndex_eq]; exact marked.1)
  refine ⟨?_, fun present => sameDisk _ (sound.marked_place bound present)⟩
  unfold State.place State.blockAt
  rw [sameRoot]
  apply Forest.value_congr
  intro before next after split present
  have shorter : before.length ≤ addrLevel k := by
    rw [split, List.length_append] at bound
    omega
  exact congrFun (State.child_congr
    (sameDisk _ (sound.forest.marked (inodeNum, k) before shorter present)))
    next

namespace Kept

variable {inodeNum : UInt16}

theorem refl : Kept opened state state inodeNum :=
  ⟨rfl, Backs.refl _, fun _ _ _ _ => ⟨rfl, fun _ => rfl⟩, fun _ => rfl⟩

theorem trans
    (first : Kept opened state middle inodeNum)
    (second : Kept opened middle final inodeNum)
    (same : SameOpen opened state middle) :
    Kept opened state final inodeNum := by
  refine ⟨second.stored.trans first.stored,
    second.fields.trans first.fields, ?_,
    fun isOpen => (second.current (isOpen.congr same)).trans
      (first.current isOpen)⟩
  intro k path bound sameRoot
  by_cases absent : state.root (inodeNum, k) = 0
  · have zero : state.place (inodeNum, k) path = 0 := by
      unfold State.place State.blockAt
      rw [absent, Forest.value_null]
    refine ⟨?_, fun present => absurd zero present⟩
    rw [zero]
    unfold State.place State.blockAt
    rw [sameRoot, absent, Forest.value_null]
  · have upper : final.root (inodeNum, k) = middle.root (inodeNum, k) := by
      refine (root_of_fields second.fields k).resolve_right fun zero => ?_
      exact absent (sameRoot.symm.trans zero)
    obtain ⟨place, disk⟩ := first.blocks k path bound
      (upper.symm.trans sameRoot)
    obtain ⟨place', disk'⟩ := second.blocks k path bound upper
    refine ⟨place'.trans place, fun present => ?_⟩
    rw [← disk present, ← place]
    exact disk' (by rwa [place])

/-- Changes of the bitmaps and of the inode table. -/
theorem of_table
    (sound : Sound state)
    (data : ∀ index, 131 ≤ index → final.disk index = state.disk index)
    (stored : final.dinodeAt inodeNum = state.dinodeAt inodeNum)
    (fields : Backs (final.dinodeOf inodeNum) (state.dinodeOf inodeNum))
    (current : OpenInode opened state inodeNum →
      final.dinodeOf inodeNum = state.dinodeOf inodeNum) :
    Kept opened state final inodeNum :=
  ⟨stored, fields, fun _ _ bound sameRoot =>
    sound.sameBlocks data bound sameRoot, current⟩

/-- Changes of the cache. -/
theorem of_cache
    (sound : Sound state) (reverts : Reverts state final)
    (small : inodeNum.toNat < maxInodes)
    (current : OpenInode opened state inodeNum →
      final.dinodeOf inodeNum = state.dinodeOf inodeNum) :
    Kept opened state final inodeNum := by
  refine of_table sound (fun index _ => congrFun reverts.disk index) ?_
    (reverts.fields inodeNum small) current
  unfold State.dinodeAt
  rw [reverts.disk]

/-- Changes of the blocks of another inode. -/
theorem of_transferred
    {ip : Slot} (transferred : Transferred state final ip)
    (small : inodeNum.toNat < maxInodes)
    (other : inodeNum ≠ (state.icache ip).inodeNum) :
    Kept opened state final inodeNum := by
  have size : maxInodes = 2048 := rfl
  have stored : final.dinodeAt inodeNum = state.dinodeAt inodeNum := by
    unfold State.dinodeAt
    rw [diskIndex_inodeBlock, transferred.table _ (by omega) (by omega)]
  have numbers : ∀ slot, (final.icache slot).inodeNum =
      (state.icache slot).inodeNum := by
    intro slot
    by_cases same : slot = ip
    · rw [same, transferred.inodeNum]
    · rw [transferred.slots slot same]
  have current : final.dinodeOf inodeNum = state.dinodeOf inodeNum := by
    unfold State.dinodeOf
    rw [slotOf_congr numbers]
    cases found : slotOf state inodeNum with
    | none => exact stored
    | some slot =>
        have number := slotOf_eq_some found
        have differs : slot ≠ ip := by
          rintro rfl
          exact other number.symm
        simp only [State.locked, transferred.slots slot differs, number,
          stored]
  refine ⟨stored, current ▸ Backs.refl _, fun k path bound _ => ?_,
    fun _ => current⟩
  exact transferred.places (inodeNum, k) path other bound

end Kept

/-- An inode that keeps its size and its blocks with their contents. -/
structure KeepsData (state final : State) (inodeNum : UInt16) : Prop where
  type : (final.dinodeOf inodeNum).type = (state.dinodeOf inodeNum).type
  size : (final.dinodeOf inodeNum).size = (state.dinodeOf inodeNum).size
  addrs : (final.dinodeOf inodeNum).addrs = (state.dinodeOf inodeNum).addrs
  blocks : ∀ k path, path.length ≤ addrLevel k →
    final.place (inodeNum, k) path = state.place (inodeNum, k) path ∧
    (state.place (inodeNum, k) path ≠ 0 →
      final.disk (diskIndex (state.place (inodeNum, k) path)) =
        state.disk (diskIndex (state.place (inodeNum, k) path)))

theorem KeepsData.trans
    {inodeNum : UInt16} (first : KeepsData state middle inodeNum)
    (second : KeepsData middle final inodeNum) :
    KeepsData state final inodeNum := by
  refine ⟨second.type.trans first.type, second.size.trans first.size,
    second.addrs.trans first.addrs, fun k path bound => ?_⟩
  obtain ⟨place, disk⟩ := first.blocks k path bound
  obtain ⟨place', disk'⟩ := second.blocks k path bound
  refine ⟨place'.trans place, fun present => ?_⟩
  rw [← disk present, ← place]
  exact disk' (by rwa [place])

/-- An open inode that a call does not change keeps its data. -/
theorem Kept.keepsData
    {inodeNum : UInt16} (kept : Kept opened state final inodeNum)
    (isOpen : OpenInode opened state inodeNum) :
    KeepsData state final inodeNum := by
  have current := kept.current isOpen
  refine ⟨by rw [current], by rw [current], by rw [current],
    fun k path bound => kept.blocks k path bound ?_⟩
  unfold State.root
  rw [current]

/-- What a call that changes some inodes leaves alone. -/
structure Frame (opened : Slot → Nat) (changed : UInt16 → Prop)
    (state final : State) : Prop where
  kept : ∀ inodeNum : UInt16, inodeNum.toNat < maxInodes →
    ¬changed inodeNum → Kept opened state final inodeNum
  sameOpen : SameOpen opened state final
  bits : ∀ number, bitAt state.inodeBitmap number = true →
    bitAt final.inodeBitmap number = true

namespace Frame

theorem refl : Frame opened changed state state :=
  ⟨fun _ _ _ => Kept.refl, fun _ _ => rfl, fun _ set => set⟩

theorem trans
    (first : Frame opened changed state middle)
    (second : Frame opened changed middle final) :
    Frame opened changed state final :=
  ⟨fun inodeNum small other => (first.kept inodeNum small other).trans
      (second.kept inodeNum small other) first.sameOpen,
    fun ip isOpen => (second.sameOpen ip isOpen).trans
      (first.sameOpen ip isOpen),
    fun number set => second.bits number (first.bits number set)⟩

theorem weaken
    {more : UInt16 → Prop} (frame : Frame opened changed state final)
    (fewer : ∀ inodeNum, changed inodeNum → more inodeNum) :
    Frame opened more state final :=
  ⟨fun inodeNum small other => frame.kept inodeNum small
    fun isChanged => other (fewer inodeNum isChanged),
    frame.sameOpen, frame.bits⟩

theorem keepsData
    {inodeNum : UInt16} (frame : Frame opened changed state final)
    (small : inodeNum.toNat < maxInodes)
    (isOpen : OpenInode opened state inodeNum) (other : ¬changed inodeNum) :
    KeepsData state final inodeNum :=
  (frame.kept inodeNum small other).keepsData isOpen

end Frame

/-- A call that changes no inode. -/
abbrev Quiet (opened : Slot → Nat) (state final : State) : Prop :=
  Frame opened (fun _ => False) state final

theorem Quiet.frame (quiet : Quiet opened state final) :
    Frame opened changed state final :=
  quiet.weaken fun _ => False.elim

/-- Slots that differ in their numbers of references at most. -/
def SameSlot (state final : State) (ip : Slot) : Prop :=
  ∃ ref, final.icache ip = (state.icache ip).setRef ref

theorem SameSlot.refl (ip : Slot) : SameSlot state state ip :=
  ⟨(state.icache ip).ref, rfl⟩

theorem SameSlot.trans
    {ip : Slot} (first : SameSlot state middle ip)
    (second : SameSlot middle final ip) : SameSlot state final ip := by
  obtain ⟨_, same⟩ := first
  obtain ⟨ref, same'⟩ := second
  exact ⟨ref, by rw [same', same]; rfl⟩

theorem SameSlot.inodeNum
    {ip : Slot} (same : SameSlot state final ip) :
    (final.icache ip).inodeNum = (state.icache ip).inodeNum := by
  obtain ⟨_, same⟩ := same
  rw [same]
  rfl

theorem SameSlot.valid
    {ip : Slot} (same : SameSlot state final ip) :
    (final.icache ip).valid = (state.icache ip).valid := by
  obtain ⟨_, same⟩ := same
  rw [same]
  rfl

theorem SameSlot.data
    {ip : Slot} (same : SameSlot state final ip) :
    (final.icache ip).data = (state.icache ip).data := by
  obtain ⟨_, same⟩ := same
  rw [same]
  rfl

theorem SameSlot.slk
    {ip : Slot} (same : SameSlot state final ip) :
    (final.icache ip).slk = (state.icache ip).slk := by
  obtain ⟨_, same⟩ := same
  rw [same]
  rfl

theorem SameSlot.dinodeOf
    {ip : Slot} (same : SameSlot state final ip)
    (unique : UniqueSlots state) (unique' : UniqueSlots final)
    (used : (state.icache ip).inodeNum ≠ inodeNumUnused)
    (sameDisk : final.disk = state.disk) :
    final.dinodeOf (state.icache ip).inodeNum =
      state.dinodeOf (state.icache ip).inodeNum := by
  have number := same.inodeNum
  obtain ⟨ref, same⟩ := same
  have slot := dinodeOf_slot unique' (show (final.icache ip).inodeNum ≠ _ by
    rwa [number])
  rw [number] at slot
  rw [slot, dinodeOf_slot unique used]
  simp only [State.locked, State.dinodeAt, same, sameDisk]
  rfl

theorem numbers_of_refs
    (same : final.refs = state.refs) (ip : Slot) :
    (final.icache ip).inodeNum = (state.icache ip).inodeNum :=
  (Prod.mk.inj (congrFun same ip)).1

/-- What the steps of a call rely on: sound blocks, counted references, marked
numbers of the cached inodes, and no locked buffers. -/
structure Live (base : UInt16 → Nat) (opened : Slot → Nat)
    (held : List Slot) (state : State) : Prop where
  sound : Sound state
  references : References base opened held state
  cached : ∀ ip, (state.icache ip).inodeNum ≠ inodeNumUnused →
    bitAt state.inodeBitmap (state.icache ip).inodeNum.toNat = true
  idle : state.held = []

namespace Live

variable {base : UInt16 → Nat} {held held' : List Slot} {ip : Slot}

theorem open_ref_ne_zero
    (live : Live base opened held state) (isOpen : opened ip ≠ 0) :
    (state.icache ip).ref ≠ 0 := by
  intro zero
  have counted := live.references.counted ip
  rw [zero] at counted
  change 0 = _ at counted
  omega

theorem held_ref_ne_zero
    (live : Live base opened held state) (isHeld : ip ∈ held) :
    (state.icache ip).ref ≠ 0 := by
  intro zero
  have counted := live.references.counted ip
  have some := List.count_pos_iff.mpr isHeld
  rw [zero] at counted
  change 0 = _ at counted
  omega

theorem small
    (live : Live base opened held state)
    (used : (state.icache ip).inodeNum ≠ inodeNumUnused) :
    (state.icache ip).inodeNum.toNat < maxInodes :=
  live.sound.small ip used

/-- Steps that neither take nor give back references. -/
theorem congr
    (live : Live base opened held state) (sound : Sound final)
    (same : final.refs = state.refs)
    (bits : ∀ number, bitAt state.inodeBitmap number = true →
      bitAt final.inodeBitmap number = true)
    (idle : final.held = state.held) : Live base opened held final := by
  refine ⟨sound, live.references.congr same, fun ip used => ?_,
    idle.trans live.idle⟩
  rw [numbers_of_refs same ip] at used ⊢
  exact bits _ (live.cached ip used)

theorem perm
    (live : Live base opened held state) (same : held.Perm held') :
    Live base opened held' state :=
  ⟨live.sound, live.references.perm same, live.cached, live.idle⟩

/-! ## The cache -/

/-- Steps that change no field. -/
theorem sameFields
    (live : Live base opened held state) (sound : Sound final)
    (references : References base opened held' final)
    (same : SameFields state final)
    (numbers : ∀ ip, (final.icache ip).inodeNum =
      (state.icache ip).inodeNum)
    (idle : final.held = state.held) :
    Live base opened held' final ∧ Quiet opened state final := by
  have bits : final.inodeBitmap = state.inodeBitmap := congrFun same.1 1
  refine ⟨⟨sound, references, fun ip used => ?_, idle.trans live.idle⟩,
    fun inodeNum small _ => Kept.of_cache live.sound same.reverts small
      fun _ => congrFun same.2 inodeNum,
    fun ip _ => numbers ip, fun number set => by rwa [bits]⟩
  rw [numbers] at used ⊢
  rw [bits]
  exact live.cached ip used

theorem alloc
    {inodeNum : UInt16} (live : Live base opened held state)
    (few : held.length ≤ nInode) (small : inodeNum.toNat < maxInodes)
    (set : bitAt state.inodeBitmap inodeNum.toNat = true)
    (run : (inodeAlloc inodeNum).Runs state ip final) :
    Live base opened (ip :: held) final ∧ Quiet opened state final ∧
      (final.icache ip).inodeNum = inodeNum ∧ final.disk = state.disk ∧
      ∀ slot, (state.icache slot).ref ≠ 0 → SameSlot state final slot := by
  obtain ⟨sound, reverts, number⟩ := live.sound.alloc small run
  obtain ⟨references, _⟩ := live.references.alloc few run
  have bits : final.inodeBitmap = state.inodeBitmap :=
    congrFun reverts.disk 1
  have slots : ∀ slot, (state.icache slot).ref ≠ 0 →
      SameSlot state final slot := by
    intro slot referenced
    rcases inodeAlloc_runs run with ⟨_, rfl⟩ | ⟨_, unreferenced, rfl⟩
    · by_cases same : slot = ip
      · subst same
        exact ⟨(state.icache slot).ref + 1, by simp⟩
      · exact ⟨(state.icache slot).ref, by simp [same]; rfl⟩
    · have differs : slot ≠ ip := by
        rintro rfl
        exact referenced unreferenced
      exact ⟨(state.icache slot).ref, by simp [differs]; rfl⟩
  have others : ∀ slot, slot ≠ ip →
      (final.icache slot).inodeNum = (state.icache slot).inodeNum := by
    intro slot differs
    rcases inodeAlloc_runs run with ⟨_, rfl⟩ | ⟨_, _, rfl⟩
    · simp [differs]
    · simp [differs]
  refine ⟨⟨sound, references, fun slot used => ?_,
    (inodeAlloc_frame run).2.1.trans live.idle⟩, ⟨?_, ?_, ?_⟩, number,
    reverts.disk, slots⟩
  · rw [bits]
    by_cases same : slot = ip
    · rwa [same, number]
    · rw [others slot same] at used ⊢
      exact live.cached slot used
  · intro other otherSmall _
    refine Kept.of_cache live.sound reverts otherSmall ?_
    rintro ⟨slot, isOpen, rfl⟩
    exact (slots slot (live.open_ref_ne_zero isOpen)).dinodeOf
      live.sound.unique sound.unique (ne_unused_of_small otherSmall)
      reverts.disk
  · intro slot isOpen
    obtain ⟨ref, same⟩ := slots slot (live.open_ref_ne_zero isOpen)
    rw [same]
    rfl
  · intro number set
    rwa [bits]

variable {result : Unit}

/-- A change of a slot that keeps its inode, references and fields. -/
theorem setSame
    (live : Live base opened held state) (inode : Inode)
    (used : (state.icache ip).inodeNum ≠ inodeNumUnused)
    (sameNum : inode.inodeNum = (state.icache ip).inodeNum)
    (sameRef : inode.ref = (state.icache ip).ref)
    (sameData : (if inode.valid then inode.data
      else state.dinodeAt (state.icache ip).inodeNum) =
        (state.locked ip).data) :
    Live base opened held (state.setInode ip inode) ∧
      Quiet opened state (state.setInode ip inode) := by
  obtain ⟨sound, same⟩ := live.sound.setSameInode used sameNum sameData
  exact live.sameFields sound
    (live.references.congr (refs_setInode sameNum sameRef)) same
    (inodeNum_setInode sameNum) rfl

theorem lock
    (live : Live base opened held state)
    (used : (state.icache ip).inodeNum ≠ inodeNumUnused)
    (run : (inodeLock ip).Runs state result final) :
    Live base opened held final ∧ Quiet opened state final := by
  obtain ⟨_, _, rfl⟩ := inodeLock_runs run
  exact live.setSame _ used rfl rfl rfl

theorem unlock
    (live : Live base opened held state)
    (used : (state.icache ip).inodeNum ≠ inodeNumUnused)
    (run : (inodeUnlock ip).Runs state result final) :
    Live base opened held final ∧ Quiet opened state final := by
  obtain ⟨_, rfl⟩ := inodeUnlock_runs run
  exact live.setSame _ used rfl rfl rfl

theorem free
    (live : Live base opened (ip :: held) state)
    (used : (state.icache ip).inodeNum ≠ inodeNumUnused)
    (run : (inodeFree ip).Runs state result final) :
    Live base opened held final ∧ Quiet opened state final := by
  obtain ⟨sound, same⟩ := live.sound.free used run
  have references := live.references.free run
  obtain ⟨rfl, _⟩ := inodeFree_runs run
  exact live.sameFields sound references same
    (inodeNum_setInode (show ((state.icache ip).setRef
      ((state.icache ip).ref - 1)).inodeNum = _ from rfl)) rfl

theorem unlockFree
    (live : Live base opened (ip :: held) state)
    (used : (state.icache ip).inodeNum ≠ inodeNumUnused)
    (run : (inodeUnlockFree ip).Runs state result final) :
    Live base opened held final ∧ Quiet opened state final := by
  obtain ⟨sound, same⟩ := live.sound.unlockFree used run
  have references := live.references.unlockFree run
  obtain ⟨_, rfl, _⟩ := inodeUnlockFree_runs run
  exact live.sameFields sound references same
    (inodeNum_setInode (show (((state.icache ip).setSlk false).setRef
      ((state.icache ip).ref - 1)).inodeNum = _ from rfl)) rfl

end Live

end Fs
end WhuOs
