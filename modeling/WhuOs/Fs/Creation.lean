import WhuOs.Fs.Naming

/-!
# Creating files and directories

A call of `path_create_inode` that succeeds takes an inode number, adds an entry
for it to the parent, and for a directory fills the block that is handed out
next.  The directories on disk stay a tree as long as the new directory has no
entries but its own two.
-/

namespace WhuOs
namespace Fs

open Library
open Program (Runs)

variable {state middle final : State} {opened : Slot → Nat}
variable {base : UInt16 → Nat} {held : List Slot} {ip dirIp : Slot}
variable {path name : CString} {type major minor : UInt16}

/-! ## Steps of the call -/

theorem finishCreate_stages
    {result : Option Slot}
    (run : (finishCreate dirIp ip).Runs state result final) :
    result = some ip ∧ ∃ unlocked,
      (inodeUnlock ip).Runs (state.storeData ip
        ((state.icache ip).data.setNlink 1)) () unlocked ∧
      (inodeUnlockFree dirIp).Runs unlocked () final := by
  simp only [finishCreate, Program.runs_bind, Program.runs_pure] at run
  obtain ⟨_, _, change, _, _, write, _, unlocked, unlock, _, _, free, rfl,
    rfl⟩ := run
  obtain ⟨_, rfl⟩ := storeData_of_runs change write
  exact ⟨rfl, unlocked, unlock, free⟩

/-- The steps of a call that succeeds. -/
theorem pathCreateInode_stages
    (run : (pathCreateInode path type major minor).Runs state (some ip)
      final) :
    ∃ dirIp name found listed created ready offset added filled,
      (pathToPinode path).Runs state (some (dirIp, name)) found ∧
      (inodeLock dirIp).Runs found () listed ∧
      lookupName (listed.dirData dirIp) name = inodeNumUnused ∧
      (inodeCreate type major minor).Runs listed (some ip) created ∧
      (inodeLock ip).Runs created () ready ∧
      (dirAddEntry dirIp (ready.icache ip).inodeNum name).Runs ready offset
        added ∧
      offset ≠ 1024 ∧
      (if type = ftDir then (fillDirectory dirIp ip name).Runs added true filled
        else filled = added) ∧
      (finishCreate dirIp ip).Runs filled (some ip) final := by
  simp only [pathCreateInode, Program.runs_bind] at run
  obtain ⟨parent, found, search, run⟩ := run
  cases parent with
  | none =>
      simp only [Program.runs_pure] at run
      cases run.1
  | some parent =>
      obtain ⟨dirIp, name⟩ := parent
      simp only [Program.runs_bind] at run
      obtain ⟨_, listed, lock, _, _, lookup, run⟩ := run
      obtain ⟨_, _, _, rfl, rfl⟩ := dirSearchEntry_runs lookup
      split at run
      · simp only [Program.runs_bind, Program.runs_pure] at run
        obtain ⟨_, _, _, absurd, _⟩ := run
        cases absurd
      · next absent =>
        simp only [Program.runs_bind] at run
        obtain ⟨created, _, create, run⟩ := run
        cases created with
        | none =>
            simp only [Program.runs_bind, Program.runs_pure] at run
            obtain ⟨_, _, _, absurd, _⟩ := run
            cases absurd
        | some ip' =>
            simp only [Program.runs_bind, runs_getInode] at run
            obtain ⟨_, ready, lockNew, _, _, ⟨rfl, rfl⟩, offset, added, add,
              run⟩ := run
            split at run
            · simp only [Program.runs_bind] at run
              obtain ⟨_, _, unlock, _, _, freeData, _⟩ := run
              exact absurd freeData (unlock_freeData_not_runs unlock)
            · next success =>
              split at run
              · next isDir =>
                simp only [Program.runs_bind] at run
                obtain ⟨isFilled, filled, fill, run⟩ := run
                cases isFilled with
                | false =>
                    simp only [Bool.false_eq_true, if_false,
                      Program.runs_pure] at run
                    cases run.1
                | true =>
                    rw [if_pos rfl] at run
                    obtain rfl :=
                      Option.some.inj (finishCreate_stages run).1
                    exact ⟨dirIp, name, found, _, _, ready, offset, added,
                      filled, search, lock, not_not.mp absent, create, lockNew,
                      add, success, (if_pos isDir).symm ▸ fill, run⟩
              · next isFile =>
                obtain rfl := Option.some.inj (finishCreate_stages run).1
                exact ⟨dirIp, name, found, _, _, ready, offset, added,
                  added, search, lock, not_not.mp absent, create, lockNew,
                  add, success, (if_neg isFile).symm ▸ rfl, run⟩

/-! ## Adding the entry -/

/-- A new inode has an entry in its parent. -/
structure NamesNew (base : UInt16 → Nat) (opened : Slot → Nat)
    (held : List Slot) (state added : State) (dirIp ip : Slot)
    (dir node : UInt16) (name : CString) (entry : EntryIndex)
    (dinode : Dinode) : Prop where
  live : Live base opened (ip :: dirIp :: held) added
  frame : Frame opened (fun inodeNum => inodeNum = dir ∨ inodeNum = node) state
    added
  free : entryOf (state.dirBlock dir) entry = none
  absent : state.nameIn dir name = inodeNumUnused
  dirSlot : (added.icache dirIp).inodeNum = dir
  dirValid : (added.icache dirIp).valid = true
  slot : ∃ ref, added.icache ip = ⟨dinode, node, ref, true, true⟩
  storedDir : added.dinodeAt dir = state.dinodeAt dir
  stored : added.dinodeAt node = dinode
  marked : bitAt added.inodeBitmap node.toNat = true
  block : added.dirBlock dir =
    storeEntry (state.dirBlock dir) entry node name
  disk : ∀ index, 130 ≤ index →
    index ≠ diskIndex ((state.dinodeAt dir).addrs 0) →
    added.disk index = state.disk index

/-- The number of a new inode is not that of a directory. -/
theorem DirTree.ne_of_first
    {dir node : UInt16} (tree : DirTree state) (isDir : state.IsDir dir)
    (first : firstClear state.inodeBitmap = some node.toNat) : dir ≠ node := by
  rintro rfl
  have set := tree.marked dir isDir.1 isDir.2.2
  rw [(firstClear_eq_some first).2.1] at set
  cases set

theorem Live.namesNew
    {found listed created ready added : State} {offset : UInt32}
    (tree : DirTree state) (live : Live base opened held state)
    (few : held.length + 2 ≤ nInode)
    (fits : ∀ number, firstClear state.inodeBitmap = some number →
      number < maxInodes)
    (search : (pathToPinode path).Runs state (some (dirIp, name)) found)
    (lock : (inodeLock dirIp).Runs found () listed)
    (absent : lookupName (listed.dirData dirIp) name = inodeNumUnused)
    (create : (inodeCreate type major minor).Runs listed (some ip) created)
    (lockNew : (inodeLock ip).Runs created () ready)
    (add : (dirAddEntry dirIp (ready.icache ip).inodeNum name).Runs ready
      offset added)
    (success : offset ≠ 1024) :
    ∃ dir node entry, state.search path true = some (dir, name) ∧
      firstClear state.inodeBitmap = some node.toNat ∧
      NamesNew base opened held state added dirIp ip dir node name entry
        (newDinode type major minor) := by
  have walks := searchInode_walks tree live (by omega) search
  obtain ⟨dir, isNumber⟩ : ∃ dir, dir = (found.icache dirIp).inodeNum :=
    ⟨_, rfl⟩
  have leads : state.search path true = some (dir, name) := by
    rw [isNumber]
    exact walks.target.symm
  have isDir := ((tree.search_linked leads).2 rfl).1
  have usedDir := ne_unused_of_small isDir.1
  have present := tree.block dir isDir
  have live₁ : Live base opened (dirIp :: held) found := walks.live
  obtain ⟨live₂, quiet₂⟩ := live₁.lock (isNumber ▸ usedDir) lock
  obtain ⟨_, _, reached⟩ := inodeLock_runs lock
  have sameDisk : listed.disk = state.disk := by
    rw [reached]
    exact walks.disk
  have dirSlot : listed.icache dirIp = found.locked dirIp := by
    rw [reached]
    simp
  have dirNumber : (listed.icache dirIp).inodeNum = dir := by
    rw [dirSlot, isNumber]
    rfl
  have dirValid : (listed.icache dirIp).valid = true := by
    rw [dirSlot]
    rfl
  have upToList : Quiet opened state listed := walks.quiet.trans quiet₂
  have storedList : listed.dinodeAt dir = state.dinodeAt dir :=
    (upToList.kept dir isDir.1 id).stored
  have sameBlock : listed.dirBlock dir = state.dirBlock dir := by
    unfold State.dirBlock
    rw [storedList, sameDisk]
  rw [live₂.sound.dirData (dirNumber.symm ▸ usedDir) dirValid
    (by rw [dirNumber, storedList]; exact present), dirNumber, sameBlock]
    at absent
  have sameBits : listed.inodeBitmap = state.inodeBitmap :=
    congrFun sameDisk 1
  have fewer : (dirIp :: held).length ≤ nInode := by
    rw [List.length_cons]
    omega
  obtain ⟨node, creates, live₃, frame₃⟩ :=
    live₂.create fewer (by rwa [sameBits]) create
  have first := creates.first
  rw [sameBits] at first
  have apart := tree.ne_of_first isDir first
  have apartSlots : dirIp ≠ ip := by
    rintro rfl
    exact live₂.held_ref_ne_zero (.head _) creates.fresh
  obtain ⟨ref, slot⟩ := creates.slot
  have small : node.toNat < maxInodes := fits _ first
  obtain ⟨live₄, quiet₄⟩ := live₃.lock
    (by rw [slot]; exact ne_unused_of_small small) lockNew
  obtain ⟨_, _, rfl⟩ := inodeLock_runs lockNew
  have newSlot : (created.setInode ip (created.locked ip)).icache ip =
      ⟨newDinode type major minor, node, ref, true, true⟩ := by
    rw [State.setInode_icache, Function.update_self]
    unfold State.locked
    rw [slot]
    rfl
  have dirSlot₄ : (created.setInode ip (created.locked ip)).icache dirIp =
      listed.icache dirIp := by
    rw [State.setInode_icache, Function.update_of_ne apartSlots,
      creates.slots dirIp apartSlots]
  have frame₄ := frame₃.trans quiet₄.frame
  have keptDir := (upToList.frame.trans frame₄).kept dir isDir.1 apart
  rw [newSlot] at add
  obtain ⟨entry, free, _, rfl, writes, live₅, frame₅⟩ := live₄.namesEntry
    (by rw [dirSlot₄, dirNumber]; exact usedDir)
    (by rw [dirSlot₄]; exact dirValid)
    (by rw [dirSlot₄, dirNumber, keptDir.stored]; exact present) add success
  have changes : ∀ inodeNum, ChangesSlot
      (created.setInode ip (created.locked ip)) dirIp inodeNum →
      inodeNum = dir ∨ inodeNum = node := by
    intro inodeNum same
    unfold ChangesSlot at same
    rw [dirSlot₄, dirNumber] at same
    exact Or.inl same
  rw [dirSlot₄, dirNumber] at free writes
  have block₄ : (created.setInode ip (created.locked ip)).dirBlock dir =
      state.dirBlock dir :=
    keptDir.dirBlock live.sound live₄.sound isDir.1 present
  rw [block₄] at free writes
  refine ⟨dir, node, entry, leads, first, live₅,
    upToList.frame.trans ((frame₄.weaken fun _ => Or.inr).trans
      (frame₅.weaken changes)), entryOf_of_freeEntry free, absent, ?_, ?_, ?_,
    ?_, ?_, ?_, writes.block, fun index high differs => ?_⟩
  · rw [addEntry_icache_self, dirSlot₄]
    exact dirNumber
  · rw [addEntry_icache_self, dirSlot₄]
    exact dirValid
  · rw [addEntry_icache_of_ne apartSlots.symm, newSlot]
    exact ⟨ref, rfl⟩
  · rw [writes.stored dir isDir.1, keptDir.stored]
  · rw [writes.stored node small]
    exact creates.stored
  · exact frame₅.bits _ (quiet₄.bits _ creates.marked)
  · rw [writes.disk index (by rwa [keptDir.stored])]
    exact (creates.disk index high).trans (congrFun sameDisk index)

/-! ## Files -/

/-- The end of the call stores the link and unlocks both inodes. -/
theorem Live.finishes
    (live : Live base opened (ip :: dirIp :: held) state)
    (used : (state.icache ip).inodeNum ≠ inodeNumUnused)
    (valid : (state.icache ip).valid = true)
    (usedDir : (state.icache dirIp).inodeNum ≠ inodeNumUnused)
    (apart : dirIp ≠ ip)
    (run : (finishCreate dirIp ip).Runs state (some ip) final) :
    Live base opened (ip :: held) final ∧
      Frame opened (ChangesSlot state ip) state final ∧
      final.dinodeAt (state.icache ip).inodeNum =
        (state.icache ip).data.setNlink 1 ∧
      final.icache ip = ((state.icache ip).setData
        ((state.icache ip).data.setNlink 1)).setSlk false ∧
      ∀ index, 130 ≤ index → final.disk index = state.disk index := by
  obtain ⟨_, unlocked, unlock, free⟩ := finishCreate_stages run
  have fewer : ∀ k, ((state.icache ip).data.setNlink 1).addrs k =
      (state.icache ip).data.addrs k ∨
      ((state.icache ip).data.setNlink 1).addrs k = 0 := fun _ => Or.inl rfl
  obtain ⟨live₁, frame₁⟩ := live.store used valid fewer
  have slot : (state.storeData ip
      ((state.icache ip).data.setNlink 1)).icache ip = (state.icache ip).setData
        ((state.icache ip).data.setNlink 1) := storeData_icache_self _
  have dirSlot : (state.storeData ip
      ((state.icache ip).data.setNlink 1)).icache dirIp = state.icache dirIp :=
    storeData_icache_of_ne apart _
  obtain ⟨live₂, quiet₂⟩ := live₁.unlock (by rw [slot]; exact used) unlock
  obtain ⟨_, rfl⟩ := inodeUnlock_runs unlock
  have live₂ := live₂.perm (.swap dirIp ip held)
  have usedDir₂ : (((state.storeData ip
      ((state.icache ip).data.setNlink 1)).setInode ip (((state.storeData ip
        ((state.icache ip).data.setNlink 1)).icache ip).setSlk
          false)).icache dirIp).inodeNum ≠ inodeNumUnused := by
    rw [State.setInode_icache, Function.update_of_ne apart, dirSlot]
    exact usedDir
  obtain ⟨live₃, quiet₃⟩ := live₂.unlockFree usedDir₂ free
  obtain ⟨_, rfl, _⟩ := inodeUnlockFree_runs free
  refine ⟨live₃, frame₁.trans (quiet₂.frame.trans quiet₃.frame), ?_, ?_,
    fun index high => ?_⟩
  · exact dinodeAt_storeDinode_self _ _
  · rw [State.setInode_icache, Function.update_of_ne apart.symm,
      State.setInode_icache, Function.update_self, slot]
  · exact live.sound.storeData_disk used (Or.inr high)

/-- An inode whose number is not marked has no links. -/
theorem DirTree.unlinked_of_first
    {node : UInt16} (tree : DirTree state) (small : node.toNat < maxInodes)
    (first : firstClear state.inodeBitmap = some node.toNat) :
    (state.dinodeAt node).nlink = 0 := by
  by_contra linked
  have set := tree.marked node small linked
  rw [(firstClear_eq_some first).2.1] at set
  cases set

/-- A name that leads nowhere is not listed. -/
theorem DirTree.fresh_of_nameIn
    {dir : UInt16} (tree : DirTree state) (isDir : state.IsDir dir)
    (fits : name.Fits) (absent : state.nameIn dir name = inodeNumUnused)
    (entry : EntryIndex) (node : UInt16) :
    state.directories.entries dir entry ≠ some (name.bytes, node) := by
  rcases tree.nameIn_cases isDir fits with ⟨_, _, fresh⟩ | ⟨_, _, _, linked⟩
  · exact fresh entry node
  · exact absurd absent (DirTree.nameIn_ne_unused linked)

/-- A new entry for a file, counted in its inode. -/
theorem DirTree.addFile
    {dir node : UInt16} {entry : EntryIndex}
    (tree : DirTree state) (sound : Sound state) (sound' : Sound final)
    (frame : Frame opened (fun inodeNum => inodeNum = dir ∨ inodeNum = node)
      state final)
    (isDir : state.IsDir dir) (fits : name.Fits)
    (free : entryOf (state.dirBlock dir) entry = none)
    (absent : state.nameIn dir name = inodeNumUnused)
    (storedDir : final.dinodeAt dir = state.dinodeAt dir)
    (block : final.dirBlock dir =
      storeEntry (state.dirBlock dir) entry node name)
    (small : node.toNat < maxInodes) (isFile : ¬state.IsDir node)
    (isFile' : ¬final.IsDir node)
    (linked : (final.dinodeAt node).nlink.toNat =
      (state.dinodeAt node).nlink.toNat + 1)
    (marked : bitAt final.inodeBitmap node.toNat = true) : DirTree final := by
  have isDir' : final.IsDir dir := by
    unfold State.IsDir
    rw [storedDir]
    exact isDir
  have adds : Directories.AddsFile state.directories final.directories dir
      entry name.bytes node := by
    refine ⟨isDir, ?_, tree.fresh_of_nameIn isDir fits absent, isFile, ?_, ?_,
      ?_, ?_, ?_⟩
    · rw [entries_of_isDir isDir, free]
    · rw [entries_of_isDir isDir', block]
      exact entryOf_storeEntry_self fits node
    · intro other place elsewhere
      by_cases sameDir : other = dir
      · subst sameDir
        have differs : place ≠ entry := fun same =>
          elsewhere (Prod.ext rfl same)
        rw [entries_of_isDir isDir', entries_of_isDir isDir, block,
          entryOf_storeEntry_of_ne differs]
      · by_cases sameNode : other = node
        · subst sameNode
          exact (if_neg isFile').trans (if_neg isFile).symm
        · exact (frame.sameNode tree sound sound'
            (fun changed => changed.elim sameDir sameNode)).entries place
    · intro other
      by_cases sameDir : other = dir
      · subst sameDir
        exact ⟨fun _ => isDir, fun _ => isDir'⟩
      · by_cases sameNode : other = node
        · subst sameNode
          exact ⟨fun isDir => absurd isDir isFile', fun isDir =>
            absurd isDir isFile⟩
        · exact (frame.sameNode tree sound sound'
            (fun changed => changed.elim sameDir sameNode)).isDir
    · rw [links_of_small small, links_of_small small, linked]
    · intro other differs
      by_cases sameDir : other = dir
      · subst sameDir
        rw [links_of_small isDir.1, links_of_small isDir.1, storedDir]
      · exact (frame.sameNode tree sound sound'
          (fun changed => changed.elim sameDir differs)).links
  refine tree.of_frame frame (tree.consistent.addFile adds) ?_ ?_
  · rintro other (rfl | rfl) isDir''
    · rw [storedDir]
      exact tree.block other isDir
    · exact absurd isDir'' isFile'
  · rintro other (rfl | rfl)
    · exact frame.bits _ (tree.marked other isDir.1 isDir.2.2)
    · exact marked

/-- What a call that succeeds leaves behind. -/
structure CreatesNode (base : UInt16 → Nat) (opened : Slot → Nat)
    (held : List Slot) (state final : State) (path : CString) (ip : Slot)
    (dir node : UInt16) (dinode : Dinode) : Prop where
  leads : ∃ name, state.search path true = some (dir, name)
  first : firstClear state.inodeBitmap = some node.toNat
  live : Live base opened (ip :: held) final
  tree : DirTree final
  frame : Frame opened (fun inodeNum => inodeNum = dir ∨ inodeNum = node) state
    final
  slot : ∃ ref, final.icache ip = ⟨dinode, node, ref, true, false⟩
  stored : final.dinodeAt node = dinode

theorem Live.createsFile
    (tree : DirTree state) (live : Live base opened held state)
    (few : held.length + 2 ≤ nInode)
    (fits : ∀ number, firstClear state.inodeBitmap = some number →
      number < maxInodes)
    (isFile : type ≠ ftDir)
    (run : (pathCreateInode path type major minor).Runs state (some ip)
      final) :
    ∃ dir node, CreatesNode base opened held state final path ip dir node
      (newDinode type major minor) := by
  obtain ⟨dirIp, name, found, listed, created, ready, offset, added, filled,
    search, lock, absent, create, lockNew, add, success, fill, finish⟩ :=
    pathCreateInode_stages run
  rw [if_neg isFile] at fill
  subst fill
  obtain ⟨dir, node, entry, leads, first, names⟩ := live.namesNew tree few fits
    search lock absent create lockNew add success
  obtain ⟨isDir, nameFits⟩ := (tree.search_linked leads).2 rfl
  have small : node.toNat < maxInodes := fits _ first
  have apart := tree.ne_of_first isDir first
  have unlinked := tree.unlinked_of_first small first
  obtain ⟨ref, slot⟩ := names.slot
  have apartSlots : dirIp ≠ ip := by
    rintro rfl
    apply apart
    rw [← names.dirSlot, slot]
  obtain ⟨live', frame', stored, slot', _⟩ := names.live.finishes
    (by rw [slot]; exact ne_unused_of_small small) (by rw [slot])
    (by rw [names.dirSlot]; exact ne_unused_of_small isDir.1) apartSlots finish
  rw [slot] at stored slot'
  have frame' : Frame opened (· = node) filled final :=
    frame'.weaken fun inodeNum same => by
      unfold ChangesSlot at same
      rw [same, slot]
  have keptDir := frame'.kept dir isDir.1 apart
  have frame : Frame opened (fun inodeNum => inodeNum = dir ∨ inodeNum = node)
      state final := names.frame.trans (frame'.weaken fun _ => Or.inr)
  have storedDir : final.dinodeAt dir = state.dinodeAt dir :=
    keptDir.stored.trans names.storedDir
  have block : final.dirBlock dir =
      storeEntry (state.dirBlock dir) entry node name := by
    rw [keptDir.dirBlock names.live.sound live'.sound isDir.1
      (by rw [names.storedDir]; exact tree.block dir isDir), names.block]
  have isFile' : ¬final.IsDir node := by
    intro isDir
    have type := isDir.2.1
    rw [stored] at type
    exact isFile type
  have notDir : ¬state.IsDir node := fun isDir => isDir.2.2 unlinked
  have linked : (final.dinodeAt node).nlink.toNat =
      (state.dinodeAt node).nlink.toNat + 1 := by
    rw [stored, unlinked]
    rfl
  have tree' : DirTree final := tree.addFile live.sound live'.sound frame isDir
    nameFits names.free names.absent storedDir block small notDir isFile' linked
    (frame'.bits _ names.marked)
  exact ⟨dir, node, ⟨name, leads⟩, first, live', tree', frame, ⟨ref, slot'⟩,
    stored⟩

/-! ## Directories -/

/-- The steps that fill a new directory. -/
theorem fillDirectory_stages
    (run : (fillDirectory dirIp ip name).Runs state true final) :
    ∃ block alloc size size' withDot withUp,
      block ≠ 0 ∧ bitmapAllocBlock.Runs state block alloc ∧
      (dirAddEntry ip (alloc.icache ip).inodeNum dot).Runs
        (alloc.setData ip
          (((alloc.icache ip).data.setAddr 0 block).setSize 0)) size withDot ∧
      (dirAddEntry ip (withDot.icache dirIp).inodeNum dotDot).Runs withDot
        size' withUp ∧
      final = withUp.storeData dirIp ((withUp.icache dirIp).data.setNlink
        ((withUp.icache dirIp).data.nlink + 1)) := by
  simp only [fillDirectory, Program.runs_bind] at run
  obtain ⟨block, alloc, take, run⟩ := run
  split at run
  · simp only [Program.runs_bind] at run
    obtain ⟨_, _, unlock, _, _, freeData, _⟩ := run
    exact absurd freeData (unlock_freeData_not_runs unlock)
  · next present =>
    simp only [Program.runs_bind, runs_getInode, Program.runs_pure] at run
    obtain ⟨_, _, store, _, _, ⟨rfl, rfl⟩, _, withDot, addDot, _, _,
      ⟨rfl, rfl⟩, _, withUp, addUp, _, _, change, _, _, write, _, rfl⟩ := run
    rw [runs_modifyData] at store
    subst store
    obtain ⟨_, rfl⟩ := storeData_of_runs change write
    rw [setData_icache_self] at addDot
    exact ⟨block, alloc, _, _, withDot, withUp, present, take, addDot, addUp,
      rfl⟩

/-- A call that runs out of blocks panics. -/
theorem fillDirectory_not_false :
    ¬(fillDirectory dirIp ip name).Runs state false final := by
  intro run
  simp only [fillDirectory, Program.runs_bind] at run
  obtain ⟨_, _, _, run⟩ := run
  split at run
  · simp only [Program.runs_bind] at run
    obtain ⟨_, _, unlock, _, _, freeData, _⟩ := run
    exact unlock_freeData_not_runs unlock freeData
  · simp only [Program.runs_bind, Program.runs_pure] at run
    obtain ⟨_, _, _, _, _, _, _, _, _, _, _, _, _, _, _, _, _, _, _, _, _,
      absurd, _⟩ := run
    cases absurd

theorem first_of_setAddr (dinode : Dinode) (block size : UInt32) :
    ((dinode.setAddr 0 block).setSize size).addrs 0 = block := by
  show (dinode.setAddr 0 block).addrs 0 = block
  rw [setAddr_addrs, Function.update_self]

/-- A new directory that was filled and counted in its parent. -/
structure Fills (base : UInt16 → Nat) (opened : Slot → Nat)
    (held : List Slot) (state final : State) (dirIp ip : Slot)
    (dir node : UInt16) (dinode : Dinode) (block : UInt32) : Prop where
  live : Live base opened held final
  frame : Frame opened (fun inodeNum => inodeNum = dir ∨ inodeNum = node) state
    final
  next : state.freeBlocks.head? = some block.toNat
  notNull : block ≠ 0
  index : diskIndex block = block.toNat
  behind : 131 ≤ block.toNat
  slot : ∃ size ref, final.icache ip =
    ⟨(dinode.setAddr 0 block).setSize size, node, ref, true, true⟩
  size : (final.icache ip).data.size = ownSize (state.disk block.toNat) node
  dirSlot : (final.icache dirIp).inodeNum = dir
  dirType : (final.dinodeAt dir).type = (state.dinodeAt dir).type
  dirLinks : (final.dinodeAt dir).nlink = (state.dinodeAt dir).nlink + 1
  dirFirst : (final.dinodeAt dir).addrs 0 = (state.dinodeAt dir).addrs 0
  dirBlock : final.dirBlock dir = state.dirBlock dir
  data : final.disk block.toNat =
    addName (addName (state.disk block.toNat) node dot) dir dotDot

theorem Live.fills
    {dir node : UInt16} {dinode : Dinode} {ref : UInt32}
    (live : Live base opened held state)
    (slot : state.icache ip = ⟨dinode, node, ref, true, true⟩)
    (empty : dinode.addrs 0 = 0) (used : node ≠ inodeNumUnused)
    (dirSlot : (state.icache dirIp).inodeNum = dir)
    (dirValid : (state.icache dirIp).valid = true)
    (usedDir : dir ≠ inodeNumUnused)
    (present : (state.dinodeAt dir).addrs 0 ≠ 0) (apart : dir ≠ node)
    (run : (fillDirectory dirIp ip name).Runs state true final) :
    ∃ block, Fills base opened held state final dirIp ip dir node dinode
      block := by
  obtain ⟨block, alloc, _, _, withDot, withUp, notNull, take, addDot, addUp,
    rfl⟩ := fillDirectory_stages run
  have apartSlots : dirIp ≠ ip := by
    rintro rfl
    rw [slot] at dirSlot
    exact apart dirSlot.symm
  have smallDir : dir.toNat < maxInodes :=
    dirSlot ▸ live.small (dirSlot.symm ▸ usedDir)
  have smallNode : node.toNat < maxInodes := by
    have small := live.small (show (state.icache ip).inodeNum ≠ _ by
      rw [slot]; exact used)
    rwa [slot] at small
  obtain ⟨takes, live₁, frame₁⟩ := live.takeBlock
    (by rw [slot]; exact used) (by rw [slot]) (by rw [slot]; exact empty)
    notNull take rfl
  have number : (alloc.icache ip).inodeNum = node := by
    have same : ((alloc.setData ip (((alloc.icache ip).data.setAddr 0
        block).setSize 0)).icache ip).inodeNum = (alloc.icache ip).inodeNum :=
      inodeNum_setData ip _ ip
    rw [← same, takes.slot, setData_icache_self, slot]
    rfl
  rw [number] at addDot
  generalize alloc.setData ip _ = taken at *
  have slot₁ : taken.icache ip =
      ⟨(dinode.setAddr 0 block).setSize 0, node, ref, true, true⟩ := by
    rw [takes.slot, setData_icache_self, slot]
    rfl
  have dirSlot₁ : taken.icache dirIp = state.icache dirIp := by
    rw [takes.slot, setData_icache_of_ne apartSlots]
  have used₁ : (taken.icache ip).inodeNum ≠ inodeNumUnused := by
    rwa [slot₁]
  have first₁ : (taken.icache ip).data.addrs 0 = block := by
    rw [slot₁]
    exact first_of_setAddr _ _ _
  have index : diskIndex block = block.toNat := takes.marked.diskIndex_eq
  have behind : 131 ≤ block.toNat := takes.marked.1
  have data₁ : taken.dirData ip = state.disk block.toNat := by
    unfold State.dirData
    rw [first₁, index]
    exact takes.disk _ (by omega)
  -- The two entries go to the new block.
  have dotSize := dirAddEntry_size addDot
  rw [data₁, slot₁] at dotSize
  obtain ⟨disk₂, ⟨size₂, slot₂⟩, others₂, live₂, frame₂⟩ :=
    live₁.addsName used₁ (by rw [slot₁]) addDot
  rw [first₁, index, data₁] at disk₂
  have slot₂ : withDot.icache ip =
      ⟨(dinode.setAddr 0 block).setSize size₂, node, ref, true, true⟩ := by
    rw [slot₂, slot₁]
    rfl
  have dirSlot₂ : withDot.icache dirIp = state.icache dirIp :=
    (others₂ dirIp apartSlots).trans dirSlot₁
  have used₂ : (withDot.icache ip).inodeNum ≠ inodeNumUnused := by
    rwa [slot₂]
  have first₂ : (withDot.icache ip).data.addrs 0 = block := by
    rw [slot₂]
    exact first_of_setAddr _ _ _
  have data₂ : withDot.dirData ip =
      addName (state.disk block.toNat) node dot := by
    unfold State.dirData
    rw [first₂, index, disk₂, Function.update_self]
  rw [dirSlot₂, dirSlot] at addUp
  have upSize := dirAddEntry_size addUp
  rw [data₂, dotSize] at upSize
  obtain ⟨disk₃, ⟨size₃, slot₃⟩, others₃, live₃, frame₃⟩ :=
    live₂.addsName used₂ (by rw [slot₂]) addUp
  rw [first₂, index, data₂] at disk₃
  have slot₃ : withUp.icache ip =
      ⟨(dinode.setAddr 0 block).setSize size₃, node, ref, true, true⟩ := by
    rw [slot₃, slot₂]
    rfl
  have dirSlot₃ : withUp.icache dirIp = state.icache dirIp :=
    (others₃ dirIp apartSlots).trans dirSlot₂
  have used₃ : (withUp.icache dirIp).inodeNum ≠ inodeNumUnused := by
    rw [dirSlot₃, dirSlot]
    exact usedDir
  have valid₃ : (withUp.icache dirIp).valid = true := by
    rw [dirSlot₃]
    exact dirValid
  have toNode : ∀ {before : State}, (before.icache ip).inodeNum = node →
      ∀ inodeNum, ChangesSlot before ip inodeNum → inodeNum = node :=
    fun number inodeNum same => Eq.trans same number
  have upToUp : Frame opened (· = node) state withUp :=
    (frame₁.weaken (toNode (by rw [slot]))).trans
      ((frame₂.weaken (toNode (by rw [slot₁]))).trans
        (frame₃.weaken (toNode (by rw [slot₂]))))
  have keptDir := upToUp.kept dir smallDir apart
  have present₃ : (withUp.dinodeAt (withUp.icache dirIp).inodeNum).addrs 0 ≠
      0 := by
    rw [dirSlot₃, dirSlot, keptDir.stored]
    exact present
  have backs := live.sound.backed dirIp (by rw [dirSlot]; exact usedDir)
    dirValid
  have counts := live₃.countsDir used₃ valid₃ present₃
    ((withUp.icache dirIp).data.nlink + 1)
  have slot₄ : (withUp.storeData dirIp ((withUp.icache dirIp).data.setNlink
      ((withUp.icache dirIp).data.nlink + 1))).icache ip = withUp.icache ip :=
    storeData_icache_of_ne apartSlots.symm _
  have dirSlot₄ : ((withUp.storeData dirIp ((withUp.icache dirIp).data.setNlink
      ((withUp.icache dirIp).data.nlink + 1))).icache dirIp).inodeNum = dir := by
    rw [storeData_icache_self, Inode.setData_inodeNum, dirSlot₃, dirSlot]
  rw [dirSlot₃, dirSlot] at counts
  rw [dirSlot] at backs
  rw [dirSlot₃] at slot₄ dirSlot₄ ⊢
  generalize withUp.storeData dirIp _ = counted at *
  refine ⟨block, counts.live, ?_, takes.next, notNull, index, behind,
    ⟨size₃, ref, slot₄.trans slot₃⟩, ?_, dirSlot₄, ?_, ?_, ?_, ?_, ?_⟩
  · exact (upToUp.weaken fun _ => Or.inr).trans
      (counts.frame.weaken fun _ => Or.inl)
  · rw [slot₄]
    exact upSize
  · rw [counts.type, keptDir.stored]
  · rw [counts.nlink, backs.nlink]
  · rw [counts.first, keptDir.stored]
  · rw [counts.block, keptDir.dirBlock live.sound live₃.sound smallDir present]
  · rw [counts.disk _ (by omega), disk₃, Function.update_self]

/-- The inode of a new directory whose block is `block`. -/
def newDirDinode (major minor : UInt16) (block size : UInt32) : Dinode :=
  ((newDinode ftDir major minor).setAddr 0 block).setSize size

/-- What a call that creates a directory leaves behind. -/
structure CreatesDir (base : UInt16 → Nat) (opened : Slot → Nat)
    (held : List Slot) (state final : State) (path : CString)
    (major minor : UInt16) (ip : Slot) (dir node : UInt16) (block : UInt32) :
    Prop where
  leads : ∃ name, state.search path true = some (dir, name)
  first : firstClear state.inodeBitmap = some node.toNat
  next : state.freeBlocks.head? = some block.toNat
  live : Live base opened (ip :: held) final
  frame : Frame opened (fun inodeNum => inodeNum = dir ∨ inodeNum = node) state
    final
  slot : ∃ size ref, final.icache ip =
    ⟨newDirDinode major minor block size, node, ref, true, false⟩
  size : (final.icache ip).data.size = ownSize (state.disk block.toNat) node
  isDir : final.IsDir node
  present : (final.dinodeAt node).addrs 0 ≠ 0
  data : final.dirBlock node =
    addName (addName (state.disk block.toNat) node dot) dir dotDot
  tree : OwnEntries (state.disk block.toNat) node dir → DirTree final

theorem Live.createsDir
    (tree : DirTree state) (live : Live base opened held state)
    (few : held.length + 2 ≤ nInode)
    (fits : ∀ number, firstClear state.inodeBitmap = some number →
      number < maxInodes)
    (run : (pathCreateInode path ftDir major minor).Runs state (some ip)
      final) :
    ∃ dir node block, CreatesDir base opened held state final path major minor
      ip dir node block := by
  obtain ⟨dirIp, name, found, listed, created, ready, offset, added, filled,
    search, lock, absent, create, lockNew, add, success, fill, finish⟩ :=
    pathCreateInode_stages run
  rw [if_pos rfl] at fill
  obtain ⟨dir, node, entry, leads, first, names⟩ := live.namesNew tree few fits
    search lock absent create lockNew add success
  obtain ⟨isDir, nameFits⟩ := (tree.search_linked leads).2 rfl
  have small : node.toNat < maxInodes := fits _ first
  have apart := tree.ne_of_first isDir first
  have unlinked := tree.unlinked_of_first small first
  obtain ⟨ref, slot⟩ := names.slot
  have apartSlots : dirIp ≠ ip := by
    rintro rfl
    apply apart
    rw [← names.dirSlot, slot]
  have present := tree.block dir isDir
  obtain ⟨block, fills⟩ := names.live.fills slot rfl (ne_unused_of_small small)
    names.dirSlot names.dirValid (ne_unused_of_small isDir.1)
    (by rw [names.storedDir]; exact present) apart fill
  obtain ⟨size, ref', slot'⟩ := fills.slot
  obtain ⟨live', frame', stored, slot'', disk'⟩ := fills.live.finishes
    (by rw [slot']; exact ne_unused_of_small small) (by rw [slot'])
    (by rw [fills.dirSlot]; exact ne_unused_of_small isDir.1) apartSlots finish
  rw [slot'] at stored slot''
  have stored : final.dinodeAt node = newDirDinode major minor block size :=
    stored
  have frame' : Frame opened (· = node) filled final :=
    frame'.weaken fun inodeNum same => by
      unfold ChangesSlot at same
      rw [same, slot']
  have keptDir := frame'.kept dir isDir.1 apart
  have frame : Frame opened (fun inodeNum => inodeNum = dir ∨ inodeNum = node)
      state final :=
    names.frame.trans (fills.frame.trans (frame'.weaken fun _ => Or.inr))
  have markedDir := live.sound.marked_first isDir.1 present
  have sameBlocks : added.freeBlocks = state.freeBlocks := by
    refine State.freeBlocks_congr (names.disk 130 (Nat.le_refl _) ?_)
    have behind := markedDir.1
    rw [markedDir.diskIndex_eq]
    omega
  have next : state.freeBlocks.head? = some block.toNat :=
    sameBlocks ▸ fills.next
  have sameData : added.disk block.toNat = state.disk block.toNat := by
    refine names.disk _ (Nat.le_of_succ_le fills.behind) fun same => ?_
    rw [markedDir.diskIndex_eq] at same
    apply State.not_marked_of_mem_freeBlocks (List.mem_of_head? next)
    rwa [UInt32.toNat_inj.mp same]
  have typeDir : (final.dinodeAt dir).type = ftDir := by
    rw [keptDir.stored, fills.dirType, names.storedDir]
    exact isDir.2.1
  have bound := tree.dir_links_le isDir
  have linksDir : (final.dinodeAt dir).nlink.toNat =
      (state.dinodeAt dir).nlink.toNat + 1 := by
    rw [keptDir.stored, fills.dirLinks, names.storedDir, UInt16.toNat_add]
    exact Nat.mod_eq_of_lt (Nat.lt_of_le_of_lt (Nat.add_le_add_right bound _)
      (by decide))
  have isDir' : final.IsDir dir := by
    refine ⟨isDir.1, typeDir, fun unlinked => ?_⟩
    rw [unlinked] at linksDir
    exact absurd linksDir (by simp)
  have isDirNode : final.IsDir node := by
    refine ⟨small, ?_, ?_⟩
    · rw [stored]
      rfl
    · rw [stored]
      exact (by decide : (1 : UInt16) ≠ 0)
  have block' : final.dirBlock dir =
      storeEntry (state.dirBlock dir) entry node name := by
    rw [keptDir.dirBlock fills.live.sound live'.sound isDir.1
      (by rw [fills.dirFirst, names.storedDir]; exact present),
      fills.dirBlock, names.block]
  have first' : (final.dinodeAt node).addrs 0 = block := by
    rw [stored]
    exact first_of_setAddr _ _ _
  have data : final.dirBlock node =
      addName (addName (state.disk block.toNat) node dot) dir dotDot := by
    have behind := fills.behind
    unfold State.dirBlock
    rw [first', fills.index, disk' _ (by omega), fills.data, sameData]
  have present' : (final.dinodeAt node).addrs 0 ≠ 0 := by
    rw [first']
    exact fills.notNull
  have newSize : (final.icache ip).data.size =
      ownSize (state.disk block.toNat) node := by
    rw [← sameData, ← fills.size, slot'', slot']
    rfl
  refine ⟨dir, node, block, ⟨name, leads⟩, first, next, live', frame,
    ⟨size, ref', slot''⟩, newSize, isDirNode, present', data,
    fun own => ?_⟩
  have empty := (emptyDirectory_iff (ne_unused_of_small small)
    (ne_unused_of_small isDir.1)).mpr own
  rw [← data] at empty
  obtain ⟨selfPlace, self⟩ := empty.self
  obtain ⟨upPlace, up⟩ := empty.up
  have notDir : ¬state.IsDir node := fun isDir => isDir.2.2 unlinked
  have adds : Directories.AddsDir dot.bytes dotDot.bytes inodeRoot
      state.directories final.directories dir entry name.bytes node selfPlace
      upPlace := by
    refine ⟨isDir, ?_, tree.fresh_of_nameIn isDir nameFits names.absent, notDir,
      ?_, ?_, ?_, ?_, ?_, ?_, ?_, ?_, ?_, ?_, ?_⟩
    · rw [entries_of_isDir isDir, names.free]
    · rw [links_of_small small, unlinked]
      rfl
    · rintro rfl
      exact notDir tree.consistent.rootDir
    · rw [entries_of_isDir isDir', block']
      exact entryOf_storeEntry_self nameFits node
    · rw [entries_of_isDir isDirNode]
      exact self
    · rw [entries_of_isDir isDirNode]
      exact up
    · intro place notSelf notUp
      rw [entries_of_isDir isDirNode]
      by_contra listed
      obtain ⟨used, listed⟩ := Option.ne_none_iff_exists'.mp listed
      rcases empty.own place used listed with rfl | rfl
      · exact notSelf (empty.once _ _ _ listed self)
      · exact notUp (empty.once _ _ _ listed up)
    · intro other place notNode elsewhere
      by_cases sameDir : other = dir
      · subst sameDir
        have differs : place ≠ entry := fun same =>
          elsewhere (Prod.ext rfl same)
        rw [entries_of_isDir isDir', entries_of_isDir isDir, block',
          entryOf_storeEntry_of_ne differs]
      · exact (frame.sameNode tree live.sound live'.sound
          (fun changed => changed.elim sameDir notNode)).entries place
    · intro other
      by_cases sameDir : other = dir
      · subst sameDir
        exact ⟨fun _ => Or.inr isDir, fun _ => isDir'⟩
      · by_cases sameNode : other = node
        · subst sameNode
          exact ⟨fun _ => Or.inl rfl, fun _ => isDirNode⟩
        · have same := (frame.sameNode tree live.sound live'.sound
            (fun changed => changed.elim sameDir sameNode)).isDir
          exact ⟨fun isDir => Or.inr (same.mp isDir), fun either =>
            same.mpr (either.resolve_left sameNode)⟩
    · rw [links_of_small small, stored]
      rfl
    · rw [links_of_small isDir.1, links_of_small isDir.1, linksDir]
    · intro other notNode notDir
      exact (frame.sameNode tree live.sound live'.sound
        (fun changed => changed.elim notDir notNode)).links
  refine tree.of_frame frame
    (tree.consistent.addDir adds dot_ne_dotDot) ?_ ?_
  · rintro other (rfl | rfl) -
    · rw [keptDir.stored, fills.dirFirst, names.storedDir]
      exact present
    · exact present'
  · rintro other (rfl | rfl)
    · exact frame.bits _ (tree.marked other isDir.1 isDir.2.2)
    · exact frame'.bits _ (fills.frame.bits _ names.marked)

end Fs
end WhuOs
