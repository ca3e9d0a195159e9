import WhuOs.Fs.DirMap
import WhuOs.Fs.Session

/-!
# The size of a directory

Adding a name sets the size of its directory to the end of the entry that is
filled, which is the first unused one.  After names were deleted that entry can
lie before others in use, and the size shrinks below them.  The size covers the
entries in use as long as names are added at its end or behind it.
-/

namespace WhuOs
namespace Fs

open Library
open Program (Runs)

variable {state before after : State} {ip : Slot} {data : Block}
  {entry : EntryIndex} {name : CString} {inodeNum node : UInt16}

/-- The end of an entry. -/
def endOf (entry : EntryIndex) : Nat := direntSize * entry + 32

/-- All entries in use end within the size. -/
def CoversData (data : Block) (size : UInt32) : Prop :=
  ∀ entry, entryOf data entry ≠ none → endOf entry ≤ size.toNat

/-- The size of a slot covers the entries of its directory. -/
def Covers (state : State) (ip : Slot) : Prop :=
  CoversData (state.dirData ip) (state.icache ip).data.size

theorem endOf_toNat (entry : EntryIndex) :
    (UInt32.ofNat (direntSize * entry) + 32).toNat = endOf entry := by
  have size : direntSize = 32 := rfl
  have small : entry.val < 32 := entry.isLt
  have offset : (UInt32.ofNat (direntSize * entry)).toNat =
      direntSize * entry := Nat.mod_eq_of_lt (by rw [size]; omega)
  rw [UInt32.toNat_add, offset, endOf]
  exact Nat.mod_eq_of_lt (by rw [size]; change _ + 32 < _; omega)

theorem endOf_le {other : EntryIndex} (before : entry ≤ other) :
    endOf entry ≤ endOf other :=
  Nat.add_le_add_right (Nat.mul_le_mul_left _ before) _

/-! ## Entries -/

/-- An entry in use after a name was stored was in use before, or it is the one
that was filled. -/
theorem used_of_storeEntry {other : EntryIndex}
    (used : entryOf (storeEntry data entry inodeNum name) other ≠ none) :
    other = entry ∨ entryOf data other ≠ none := by
  by_cases same : other = entry
  · exact Or.inl same
  · rw [entryOf_storeEntry_of_ne same] at used
    exact Or.inr used

theorem CoversData.store
    {size : UInt32} (covers : CoversData data size)
    (behind : size.toNat ≤ endOf entry) :
    CoversData (storeEntry data entry inodeNum name)
      (UInt32.ofNat (direntSize * entry) + 32) := by
  intro other used
  rw [endOf_toNat]
  rcases used_of_storeEntry used with rfl | used
  · exact Nat.le_refl _
  · exact (covers other used).trans behind

theorem CoversData.clear
    {size : UInt32} (covers : CoversData data size) :
    CoversData (clearEntry data entry) size := by
  intro other used
  by_cases same : other = entry
  · rw [same, entryOf_clearEntry_self] at used
    exact absurd rfl used
  · rw [entryOf_clearEntry_of_ne same] at used
    exact covers other used

theorem dirData_addEntry :
    (state.addEntry ip entry inodeNum name).dirData ip =
      storeEntry (state.dirData ip) entry inodeNum name := by
  unfold State.dirData
  rw [addEntry_icache_self]
  exact Function.update_self _ _ _

theorem dirData_setDisk (data : Block) :
    (state.setDisk (diskIndex ((state.icache ip).data.addrs 0)) data).dirData
      ip = data :=
  Function.update_self _ _ _

/-! ## New directories -/

/-- The entries in use in a block that becomes that of a new directory end
within the size that the directory gets. -/
def StaleFits (state : State) : Prop :=
  ∀ block node, state.freeBlocks.head? = some block →
    firstClear state.inodeBitmap = some node.toNat →
    CoversData (state.disk block) (ownSize (state.disk block) node)

/-- The entry for the directory itself lies before the one for its parent. -/
theorem addedEntry_dotDot_after
    {own up : EntryIndex} (self : addedEntry data dot = some own)
    (parent : addedEntry (storeEntry data own node dot) dotDot = some up) :
    own ≤ up := by
  obtain ⟨-, -, free⟩ := addedEntry_eq_some.mp self
  obtain ⟨-, -, free'⟩ := addedEntry_eq_some.mp parent
  by_contra before
  have before := not_le.mp before
  have unused := entryOf_of_freeEntry free'
  rw [entryOf_storeEntry_of_ne (ne_of_lt before)] at unused
  exact (freeEntry_eq_some_iff.mp free).2 up before unused

/-- A new directory's size covers its own entries. -/
theorem CoversData.own
    {dir : UInt16} (covers : CoversData data (ownSize data node)) :
    CoversData (addName (addName data node dot) dir dotDot)
      (ownSize data node) := by
  have covered : CoversData (addName data node dot) (ownSize data node) := by
    intro other used
    rw [addName_eq] at used
    cases self : addedEntry data dot with
    | none =>
        rw [self] at used
        exact covers other used
    | some own =>
        rw [self] at used
        rcases used_of_storeEntry used with rfl | used
        · unfold ownSize
          rw [addName_eq, self]
          dsimp only
          unfold addedSize
          cases parent : addedEntry (storeEntry data other node dot)
              dotDot with
          | none =>
              dsimp only
              rw [self]
              dsimp only
              rw [endOf_toNat]
          | some up =>
              dsimp only
              rw [endOf_toNat]
              exact endOf_le (addedEntry_dotDot_after self parent)
        · exact covers other used
  intro other used
  rw [addName_eq] at used
  cases parent : addedEntry (addName data node dot) dotDot with
  | none =>
      rw [parent] at used
      exact covered other used
  | some up =>
      rw [parent] at used
      rcases used_of_storeEntry used with rfl | used
      · unfold ownSize addedSize
        rw [parent]
        dsimp only
        rw [endOf_toNat]
      · exact covered other used

/-! ## Sequences of changes -/

/-- The calls that change a directory. -/
inductive DirUpdate
  | add (inodeNum : UInt16) (name : CString)
  | delete (name : CString)

/-- A call on the directory of a slot. -/
inductive UpdateStep (ip : Slot) : State → DirUpdate → State → Prop
  | add {before : State} {inodeNum : UInt16} {name : CString}
      {offset : UInt32} {after : State} :
      (dirAddEntry ip inodeNum name).Runs before offset after →
      UpdateStep ip before (.add inodeNum name) after
  | delete {before : State} {name : CString} {result : UInt16}
      {after : State} :
      (dirDeleteEntry ip name).Runs before result after →
      UpdateStep ip before (.delete name) after

/-- Changes of a directory that was created and is locked. -/
def updateSystem (ip : Slot) (created : State) :
    TransitionSystem State DirUpdate where
  Init state := (inodeLock ip).Runs created () state
  Step := UpdateStep ip

/-- A name that is added is put at the end of the directory or behind it. -/
def FillsBehind (ip : Slot) (state : State) : DirUpdate → Prop
  | .add _ name => ∀ entry ∈ addedEntry (state.dirData ip) name,
      (state.icache ip).data.size.toNat ≤ endOf entry
  | .delete _ => True

theorem Covers.step
    {update : DirUpdate} (covers : Covers before ip)
    (behind : FillsBehind ip before update)
    (taken : UpdateStep ip before update after) : Covers after ip := by
  cases taken with
  | add run =>
      obtain ⟨_, _, ⟨_, rfl, _⟩ | ⟨entry, _, _, added, rfl⟩⟩ :=
        dirAddEntry_added run
      · exact covers
      · unfold Covers
        rw [dirData_addEntry, addEntry_icache_self]
        exact CoversData.store covers (behind entry added)
  | delete run =>
      rcases dirDeleteEntry_runs run with ⟨_, rfl⟩ | ⟨entry, _, rfl⟩
      · exact covers
      · unfold Covers
        rw [dirData_setDisk]
        exact CoversData.clear covers

/-- A name that is added leaves the size as large as it was exactly when it is
put at the end or behind it. -/
theorem dirAddEntry_size_le_iff
    {offset : UInt32}
    (run : (dirAddEntry ip inodeNum name).Runs before offset after)
    (success : offset ≠ 1024) :
    (before.icache ip).data.size ≤ (after.icache ip).data.size ↔
      FillsBehind ip before (.add inodeNum name) := by
  obtain ⟨_, _, ⟨fails, _⟩ | ⟨entry, _, _, added, rfl⟩⟩ :=
    dirAddEntry_added run
  · exact absurd fails success
  · rw [addEntry_icache_self, UInt32.le_iff_toNat_le, FillsBehind, added]
    simp only [Option.mem_some_iff, forall_eq']
    rw [← endOf_toNat]
    rfl

/-- The size that `file_stat` reports is that of the slot. -/
theorem fileStat_data
    {kernel kernel' : Kernel} {index : FileIndex} {inode : Inode}
    (run : (fileStat index).Runs kernel (some inode) kernel') :
    ∃ ip, (kernel.ftable index).ip = some ip ∧
      inode.data = (kernel.fs.locked ip).data := by
  simp only [fileStat, Program.runs_bind, runs_getFile] at run
  obtain ⟨_, _, ⟨rfl, rfl⟩, run⟩ := run
  split at run
  · simp only [Program.runs_bind, runs_fileIp, runs_onFs, runs_getInode,
      Program.runs_pure] at run
    obtain ⟨ip, _, ⟨found, rfl⟩, _, _, ⟨_, lock, rfl⟩, _, _,
      ⟨_, ⟨read, _⟩, _⟩, _, _, _, same, _⟩ := run
    obtain ⟨_, _, rfl⟩ := inodeLock_runs lock
    refine ⟨ip, found, ?_⟩
    rw [← Option.some.inj same, ← read, Kernel.setFs_fs,
      State.setInode_icache, Function.update_self]
  · cases (Program.runs_pure.mp run).1

/-- A directory that a session creates covers its own entries. -/
theorem Covers.created
    {session : Session} {path : CString} {major minor : UInt16}
    {created locked : State}
    (orderly : session.Orderly) (fits : InodeFits session.kernel.fs)
    (stale : StaleFits session.kernel.fs)
    (run : (pathCreateInode path ftDir major minor).Runs session.kernel.fs
      (some ip) created)
    (lock : (inodeLock ip).Runs created () locked) : Covers locked ip := by
  obtain ⟨dir, node, block, makes⟩ :=
    orderly.live.createsDir orderly.tree (by decide) fits run
  obtain ⟨size, ref, slot⟩ := makes.slot
  have used : (created.icache ip).inodeNum ≠ inodeNumUnused := by
    rw [slot]
    exact ne_unused_of_small makes.isDir.1
  have valid : (created.icache ip).valid = true := by rw [slot]
  have number : (created.icache ip).inodeNum = node := by rw [slot]
  have covers : Covers created ip := by
    unfold Covers
    rw [makes.live.sound.dirData used valid
      (by rw [number]; exact makes.present), number, makes.data, makes.size]
    exact (stale _ node makes.next makes.first).own
  obtain ⟨_, _, rfl⟩ := inodeLock_runs lock
  unfold Covers State.dirData at covers ⊢
  rw [State.setInode_icache, Function.update_self]
  have data : (created.locked ip).data = (created.icache ip).data :=
    locked_data_of_valid valid
  rw [data]
  exact covers

/-- In a session, the size of a new directory covers its entries after any
sequence of changes that add names at its end or behind it, and a name that is
added leaves the size as large as it was exactly when it is put there. -/
theorem dirSize_covers
    {session : Session} {path : CString} {major minor : UInt16}
    {created : State}
    (reachable : sessionSystem.ReachableBy Careful session)
    (fits : InodeFits session.kernel.fs)
    (stale : StaleFits session.kernel.fs)
    (run : (pathCreateInode path ftDir major minor).Runs session.kernel.fs
      (some ip) created)
    (updates : (updateSystem ip created).ReachableBy (FillsBehind ip) state) :
    Covers state ip ∧ ∀ inodeNum name offset after,
      (dirAddEntry ip inodeNum name).Runs state offset after →
      offset ≠ 1024 →
      ((state.icache ip).data.size ≤ (after.icache ip).data.size ↔
        FillsBehind ip state (.add inodeNum name)) := by
  refine ⟨?_, fun _ _ _ _ added success =>
    dirAddEntry_size_le_iff added success⟩
  refine @TransitionSystem.ReachableBy.invariant _ _ _ _
    (fun state => Covers state ip) (fun locked lock => ?_)
    (fun _ _ _ covers behind taken => covers.step behind taken) _ updates
  exact Covers.created (.of_reachable reachable) fits stale run lock

/-! ## On a fresh image -/

/-- The blocks that are free on a fresh image have no entries. -/
theorem staleFits_mkfsState (junk : Block) : StaleFits (mkfsState junk) := by
  intro block node next _ entry used
  obtain ⟨low, _, clear⟩ :=
    State.mem_freeBlocks.mp (List.mem_of_head? next)
  have notRoot : block ≠ 131 := by
    rintro rfl
    have set : bitAt firstBitmap 0 = true := by decide +kernel
    exact absurd (set.symm.trans clear) (by decide)
  have zero : (mkfsState junk).disk block = zeroBlock := by
    change mkfsDisk junk block = zeroBlock
    unfold mkfsDisk
    rw [if_neg (by omega), if_neg (by omega), if_neg (by omega),
      if_neg notRoot]
  rw [zero] at used
  exact absurd (entryOf_blank entry) used

/-- A directory `/d` with the name `a` added to it. -/
def growingDirectory : FsM (Option (Slot × Nat × Option EntryIndex)) := do
  let created ← pathCreateInode ⟨[47, 100], by decide⟩ ftDir 0 0
  match created with
  | none => return none
  | some ip =>
      inodeLock ip
      let before ← Program.get
      let _ ← dirAddEntry ip 5 ⟨[97], by decide⟩
      return some (ip, (before.icache ip).data.size.toNat,
        addedEntry (before.dirData ip) ⟨[97], by decide⟩)

theorem dirSize_covers_added :
    ∃ state ip, Covers state ip ∧ (state.icache ip).data.size = 96 := by
  obtain ⟨result, final, run, holds⟩ := Program.exists_runs_of_any
    (show (growingDirectory.exec (mkfsState zeroBlock)).toOption.any
      (fun outcome => outcome.1.any fun (ip, size, entry) =>
        decide (size = 64 ∧ entry = some 2 ∧
          (outcome.2.icache ip).data.size = 96)) = true by decide +kernel)
  obtain ⟨⟨ip, size, entry⟩, rfl, holds⟩ := (Option.any_eq_true _ _).mp holds
  obtain ⟨rfl, rfl, grown⟩ := of_decide_eq_true holds
  obtain ⟨created, made, create, run⟩ := Program.runs_bind.mp run
  cases created with
  | none => cases (Program.runs_pure.mp run).1
  | some ip' =>
      simp only [Program.runs_bind, Program.runs_get, Program.runs_pure] at run
      obtain ⟨_, locked, lock, _, _, ⟨rfl, rfl⟩, _, _, add, result, rfl⟩ := run
      simp only [Option.some.injEq, Prod.mk.injEq] at result
      obtain ⟨rfl, size, entry⟩ := result
      have start : sessionSystem.ReachableBy Careful
          ⟨bootKernel zeroBlock, fun _ => 0⟩ := .init ⟨rfl, zeroBlock, rfl⟩
      have fits : InodeFits (mkfsState zeroBlock) := by
        intro number first
        have one : firstClear (mkfsState zeroBlock).inodeBitmap = some 1 := by
          decide +kernel
        obtain rfl := Option.some.inj (one.symm.trans first)
        decide
      have behind : FillsBehind ip' locked (.add 5 ⟨[97], by decide⟩) := by
        intro other found
        rw [entry] at found
        obtain rfl := Option.some.inj found
        rw [size]
        decide
      exact ⟨_, ip', (dirSize_covers start fits (staleFits_mkfsState _) create
        (.step (.init lock) behind (.add add))).1, grown⟩

/-- A directory `/d` that loses the first of two names and gets another. -/
def shrinkingDirectory : FsM (Option Slot) := do
  let created ← pathCreateInode ⟨[47, 100], by decide⟩ ftDir 0 0
  match created with
  | none => return none
  | some ip =>
      inodeLock ip
      let _ ← dirAddEntry ip 5 ⟨[97], by decide⟩
      let _ ← dirAddEntry ip 6 ⟨[98], by decide⟩
      let _ ← dirDeleteEntry ip ⟨[97], by decide⟩
      let _ ← dirAddEntry ip 7 ⟨[99], by decide⟩
      return some ip

/-- The name `b` of a directory is behind its size after `a` was deleted and
`c` was added. -/
theorem dirSize_shrinks :
    ¬∀ session path major minor ip created state,
      sessionSystem.Reachable session →
      (pathCreateInode path ftDir major minor).Runs session.kernel.fs
        (some ip) created →
      (updateSystem ip created).Reachable state → Covers state ip := by
  intro claim
  obtain ⟨result, final, run, holds⟩ := Program.exists_runs_of_any
    (show (shrinkingDirectory.exec (mkfsState zeroBlock)).toOption.any
      (fun outcome => outcome.1.any fun ip =>
        decide ((outcome.2.icache ip).data.size = 96 ∧
          entryOf (outcome.2.dirData ip) 3 ≠ none)) = true by decide +kernel)
  obtain ⟨ip, rfl, holds⟩ := (Option.any_eq_true _ _).mp holds
  obtain ⟨size, used⟩ := of_decide_eq_true holds
  obtain ⟨created, made, create, run⟩ := Program.runs_bind.mp run
  cases created with
  | none => cases (Program.runs_pure.mp run).1
  | some ip' =>
      simp only [Program.runs_bind, Program.runs_pure] at run
      obtain ⟨_, locked, lock, _, _, add, _, _, add', _, _, delete, _, _,
        last, same, rfl⟩ := run
      obtain rfl := Option.some.inj same
      have reached : (updateSystem ip' made).Reachable _ :=
        .step (.step (.step (.step (.init lock) trivial (.add add)) trivial
          (.add add')) trivial (.delete delete)) trivial (.add last)
      have covers := claim ⟨bootKernel zeroBlock, fun _ => 0⟩ _ _ _ _ _ _
        (.init ⟨rfl, zeroBlock, rfl⟩) create reached 3 used
      rw [size] at covers
      exact absurd covers (by decide)

end Fs
end WhuOs
