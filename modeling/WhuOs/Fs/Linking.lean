import WhuOs.Fs.Creation

/-!
# Links

A call of `path_link` that succeeds adds one entry for a file and counts it.
A call that fails, here and in `path_create_inode`, leaves the disk alone.
-/

namespace WhuOs
namespace Fs

open Library
open Program (Runs)

variable {state middle final : State} {opened : Slot → Nat}
variable {base : UInt16 → Nat} {held : List Slot} {ip dirIp : Slot}
variable {path oldPath newPath name : CString} {type major minor : UInt16}

/-- A call that changes nothing but the cache. -/
structure LeavesDisk (base : UInt16 → Nat) (opened : Slot → Nat)
    (held : List Slot) (state final : State) : Prop where
  live : Live base opened held final
  quiet : Quiet opened state final
  disk : final.disk = state.disk

theorem LeavesDisk.tree
    (leaves : LeavesDisk base opened held state final) (tree : DirTree state) :
    DirTree final := tree.congr leaves.disk

theorem LeavesDisk.trans
    {held' : List Slot} (first : LeavesDisk base opened held' state middle)
    (second : LeavesDisk base opened held middle final) :
    LeavesDisk base opened held state final :=
  ⟨second.live, first.quiet.trans second.quiet, second.disk.trans first.disk⟩

/-! ## Locking and releasing -/

theorem Live.locks
    {result : Unit} (live : Live base opened held state)
    (used : (state.icache ip).inodeNum ≠ inodeNumUnused)
    (run : (inodeLock ip).Runs state result final) :
    LeavesDisk base opened held state final := by
  obtain ⟨live', quiet⟩ := live.lock used run
  obtain ⟨_, _, rfl⟩ := inodeLock_runs run
  exact ⟨live', quiet, rfl⟩

theorem Live.unlocksFree
    {result : Unit} (live : Live base opened (ip :: held) state)
    (used : (state.icache ip).inodeNum ≠ inodeNumUnused)
    (run : (inodeUnlockFree ip).Runs state result final) :
    LeavesDisk base opened held state final := by
  obtain ⟨live', quiet⟩ := live.unlockFree used run
  obtain ⟨_, rfl, _⟩ := inodeUnlockFree_runs run
  exact ⟨live', quiet, rfl⟩

theorem Walks.leavesDisk
    {result : Option (Slot × CString)} {target : Option (UInt16 × CString)}
    (walks : Walks base opened held state final result target) :
    LeavesDisk base opened (foundSlot result ++ held) state final :=
  ⟨walks.live, walks.quiet, walks.disk⟩

/-- What the path of a found inode leads to. -/
theorem Walks.found
    {findParent : Bool}
    (tree : DirTree state)
    (walks : Walks base opened held state final (some (ip, name))
      (state.search path findParent)) :
    state.search path findParent = some ((final.icache ip).inodeNum, name) ∧
      (final.icache ip).inodeNum ≠ inodeNumUnused := by
  have leads := walks.target.symm
  exact ⟨leads, DirTree.nameIn_ne_unused (tree.search_linked leads).1⟩

/-! ## Creation that fails -/

theorem Live.createFails
    (tree : DirTree state) (live : Live base opened held state)
    (few : held.length + 2 ≤ nInode)
    (run : (pathCreateInode path type major minor).Runs state none final) :
    LeavesDisk base opened held state final := by
  simp only [pathCreateInode, Program.runs_bind] at run
  obtain ⟨parent, found, search, run⟩ := run
  have walks := searchInode_walks tree live (by omega) search
  cases parent with
  | none =>
      simp only [Program.runs_pure] at run
      obtain ⟨-, rfl⟩ := run
      exact walks.leavesDisk
  | some parent =>
      obtain ⟨dirIp, name⟩ := parent
      obtain ⟨-, used⟩ := walks.found tree
      simp only [Program.runs_bind] at run
      obtain ⟨_, listed, lock, _, _, lookup, run⟩ := run
      have locked := walks.live.locks used lock
      have usedListed : (listed.icache dirIp).inodeNum ≠ inodeNumUnused := by
        obtain ⟨_, _, rfl⟩ := inodeLock_runs lock
        rw [State.setInode_icache, Function.update_self]
        exact used
      obtain ⟨_, _, _, rfl, rfl⟩ := dirSearchEntry_runs lookup
      have upToList := walks.leavesDisk.trans locked
      split at run
      · simp only [Program.runs_bind, Program.runs_pure] at run
        obtain ⟨_, _, free, -, rfl⟩ := run
        exact upToList.trans (locked.live.unlocksFree usedListed free)
      · simp only [Program.runs_bind] at run
        obtain ⟨created, made, create, run⟩ := run
        cases created with
        | none =>
            simp only [Program.runs_bind, Program.runs_pure] at run
            obtain ⟨_, _, free, -, rfl⟩ := run
            rcases inodeCreate_runs create with ⟨_, _, rfl⟩ |
              ⟨_, _, _, _, _, _, _, absurd, _⟩
            · exact upToList.trans (locked.live.unlocksFree usedListed free)
            · cases absurd
        | some ip =>
            simp only [Program.runs_bind, runs_getInode] at run
            obtain ⟨_, ready, lockNew, _, _, ⟨rfl, rfl⟩, offset, added, add,
              run⟩ := run
            split at run
            · simp only [Program.runs_bind] at run
              obtain ⟨_, _, unlock, _, _, freeData, _⟩ := run
              exact absurd freeData (unlock_freeData_not_runs unlock)
            · split at run
              · simp only [Program.runs_bind] at run
                obtain ⟨isFilled, filled, fill, run⟩ := run
                cases isFilled with
                | false => exact absurd fill fillDirectory_not_false
                | true =>
                    rw [if_pos rfl] at run
                    cases (finishCreate_stages run).1
              · cases (finishCreate_stages run).1

/-! ## Counting names -/

/-- A file has fewer names than a link count can hold while some entry is
unused. -/
theorem DirTree.file_links_lt
    {dir node : UInt16} {entry : EntryIndex} (tree : DirTree state)
    (isDir : state.IsDir dir)
    (free : entryOf (state.dirBlock dir) entry = none)
    (isFile : ¬state.IsDir node) :
    state.directories.links node + 1 < 2 ^ 16 := by
  rw [tree.consistent.fileLinks isFile]
  obtain ⟨place, self⟩ := tree.consistent.self tree.root
  have freeEntry : state.directories.entries dir entry = none := by
    rw [entries_of_isDir isDir, free]
  have apart : (dir, entry) ≠ (inodeRoot, place) := by
    intro same
    obtain ⟨rfl, rfl⟩ := Prod.mk.inj same
    rw [self] at freeEntry
    cases freeEntry
  have notFree : (dir, entry) ∉ state.directories.places node := by
    rintro ⟨_, named⟩
    rw [freeEntry] at named
    cases named
  have notSelf : (inodeRoot, place) ∉ state.directories.places node := by
    rintro ⟨_, named⟩
    obtain ⟨-, rfl⟩ := Prod.mk.inj (Option.some.inj (self.symm.trans named))
    exact isFile tree.root
  have within : insert (dir, entry) (insert (inodeRoot, place)
      (state.directories.places node)) ⊆
        {n : UInt16 | n.toNat < maxInodes} ×ˢ Set.univ := by
    rintro ⟨other, _⟩ (same | same | ⟨_, named⟩)
    · cases same
      exact ⟨isDir.1, trivial⟩
    · cases same
      exact ⟨tree.root.1, trivial⟩
    · exact ⟨(tree.consistent.inDir named).1, trivial⟩
  have bound := Set.ncard_le_ncard within (Set.toFinite _)
  rw [Set.ncard_prod, Set.ncard_univ, Nat.card_eq_fintype_card, Fintype.card_fin,
    Set.ncard_insert_of_notMem (by
      rintro (same | named)
      · exact apart same
      · exact notFree named) (Set.toFinite _),
    Set.ncard_insert_of_notMem notSelf (Set.toFinite _)] at bound
  have few := ncard_small_le
  have size : maxInodes = 2048 := rfl
  have entries : direntPerBlock = 32 := rfl
  rw [entries] at bound
  omega

/-! ## Links that are added -/

/-- What a call that adds a link leaves behind. -/
structure LinksNode (base : UInt16 → Nat) (opened : Slot → Nat)
    (held : List Slot) (state final : State) (oldPath newPath : CString)
    (dir node : UInt16) : Prop where
  target : ∃ name, state.search oldPath false = some (node, name)
  leads : ∃ name, state.search newPath true = some (dir, name)
  isFile : ¬state.IsDir node
  live : Live base opened held final
  tree : DirTree final
  frame : Frame opened (fun inodeNum => inodeNum = dir ∨ inodeNum = node) state
    final
  keeps : OpenInode opened state node → KeepsData state final node

/-- The steps of a call that succeeds. -/
theorem pathLink_stages
    (run : (pathLink oldPath newPath).Runs state true final) :
    ∃ oldIp oldName found listed dirIp name walked ready offset added counted
        released,
      (searchInode oldPath false).Runs state (some (oldIp, oldName)) found ∧
      (inodeLock oldIp).Runs found () listed ∧
      (listed.icache oldIp).data.type ≠ ftDir ∧
      (pathToPinode newPath).Runs listed (some (dirIp, name)) walked ∧
      (inodeLock dirIp).Runs walked () ready ∧
      (dirAddEntry dirIp (ready.icache oldIp).inodeNum name).Runs ready offset
        added ∧
      offset ≠ 1024 ∧
      counted = added.storeData oldIp ((added.icache oldIp).data.setNlink
        ((added.icache oldIp).data.nlink + 1)) ∧
      (inodeUnlockFree dirIp).Runs counted () released ∧
      (inodeUnlockFree oldIp).Runs released () final := by
  simp only [pathLink, pathToInode, Program.runs_bind, Program.runs_pure] at run
  obtain ⟨_, _, ⟨old, found, searchOld, rfl, rfl⟩, run⟩ := run
  cases old with
  | none =>
      simp only [Option.map_none, Program.runs_pure] at run
      cases run.1
  | some old =>
      obtain ⟨oldIp, oldName⟩ := old
      simp only [Option.map_some, Program.runs_bind, runs_getInode] at run
      obtain ⟨_, listed, lockOld, _, _, ⟨rfl, rfl⟩, run⟩ := run
      split at run
      · simp only [Program.runs_bind, Program.runs_pure] at run
        obtain ⟨_, _, _, absurd, _⟩ := run
        cases absurd
      · next isFile =>
        simp only [Program.runs_bind] at run
        obtain ⟨parent, walked, search, run⟩ := run
        cases parent with
        | none =>
            simp only [Program.runs_bind, Program.runs_pure] at run
            obtain ⟨_, _, _, absurd, _⟩ := run
            cases absurd
        | some parent =>
            obtain ⟨dirIp, name⟩ := parent
            simp only [Program.runs_bind, runs_getInode] at run
            obtain ⟨_, ready, lock, _, _, ⟨rfl, rfl⟩, offset, added, add,
              run⟩ := run
            split at run
            · simp only [Program.runs_bind, Program.runs_pure] at run
              obtain ⟨_, _, _, _, _, _, absurd, _⟩ := run
              cases absurd
            · next success =>
              simp only [Program.runs_bind, Program.runs_pure] at run
              obtain ⟨_, _, change, _, _, write, _, released, free, _, _,
                freeOld, _, rfl⟩ := run
              obtain ⟨_, rfl⟩ := storeData_of_runs change write
              exact ⟨oldIp, oldName, found, listed, dirIp, name, walked, ready,
                offset, added, _, released, searchOld, lockOld, isFile, search,
                lock, add, success, rfl, free, freeOld⟩

theorem Live.linksNode
    (tree : DirTree state) (live : Live base opened held state)
    (few : held.length + 2 ≤ nInode)
    (run : (pathLink oldPath newPath).Runs state true final) :
    ∃ dir node, LinksNode base opened held state final oldPath newPath dir
      node := by
  obtain ⟨oldIp, oldName, found, listed, dirIp, name, walked, ready, offset,
    added, counted, released, searchOld, lockOld, notDir, search, lock, add,
    success, rfl, free, freeOld⟩ := pathLink_stages run
  -- The file.
  have walksOld := searchInode_walks tree live (by omega) searchOld
  obtain ⟨leadsOld, usedOld⟩ := walksOld.found tree
  obtain ⟨node, isNode⟩ : ∃ node, node = (found.icache oldIp).inodeNum :=
    ⟨_, rfl⟩
  rw [← isNode] at leadsOld usedOld
  have liveFound : Live base opened (oldIp :: held) found := walksOld.live
  have lockedOld := liveFound.locks (isNode ▸ usedOld) lockOld
  have upToList := walksOld.leavesDisk.trans lockedOld
  obtain ⟨_, _, rfl⟩ := inodeLock_runs lockOld
  generalize reachedList : found.setInode oldIp (found.locked oldIp) = listed
    at *
  have slotOld : listed.icache oldIp = found.locked oldIp := by
    rw [← reachedList, State.setInode_icache, Function.update_self]
  have numberOld : (listed.icache oldIp).inodeNum = node := by
    rw [slotOld, isNode]
    rfl
  have smallNode : node.toNat < maxInodes := by
    rw [← numberOld]
    exact lockedOld.live.small (by rw [numberOld]; exact usedOld)
  have storedNode : listed.dinodeAt node = state.dinodeAt node :=
    (upToList.quiet.kept node smallNode id).stored
  have isFile : ¬state.IsDir node := by
    intro isDir
    apply notDir
    rw [lockedOld.live.sound.slot_type (by rw [numberOld]; exact usedOld)
      (by rw [slotOld]; rfl), numberOld, storedNode]
    exact isDir.2.1
  -- The directory.
  have treeList := upToList.tree tree
  have walks := searchInode_walks treeList lockedOld.live
    (by rw [List.length_cons]; omega) search
  obtain ⟨leads, used⟩ := walks.found treeList
  obtain ⟨dir, isDirNumber⟩ : ∃ dir, dir = (walked.icache dirIp).inodeNum :=
    ⟨_, rfl⟩
  rw [← isDirNumber] at leads used
  have leads : state.search newPath true = some (dir, name) := by
    unfold State.search
    rw [← follow_congr upToList.disk]
    exact leads
  obtain ⟨isDir, fits⟩ := (tree.search_linked leads).2 rfl
  have sameOld := walks.slots oldIp (.head _) (by rw [slotOld]; rfl)
  have liveWalked : Live base opened (dirIp :: oldIp :: held) walked :=
    walks.live
  have locked := liveWalked.locks (isDirNumber ▸ used) lock
  obtain ⟨_, unlocked, rfl⟩ := inodeLock_runs lock
  have apartSlots : dirIp ≠ oldIp := by
    rintro rfl
    rw [sameOld.slk, slotOld] at unlocked
    cases unlocked
  have upToReady := upToList.trans (walks.leavesDisk.trans locked)
  generalize reached : walked.setInode dirIp (walked.locked dirIp) = ready at *
  have slotDir : ready.icache dirIp = walked.locked dirIp := by
    rw [← reached, State.setInode_icache, Function.update_self]
  have slotReady : ready.icache oldIp = walked.icache oldIp := by
    rw [← reached, State.setInode_icache,
      Function.update_of_ne apartSlots.symm]
  have numberDir : (ready.icache dirIp).inodeNum = dir := by
    rw [slotDir, isDirNumber]
    rfl
  have numberReady : (ready.icache oldIp).inodeNum = node := by
    rw [slotReady, sameOld.inodeNum, numberOld]
  have validReady : (ready.icache oldIp).valid = true := by
    rw [slotReady, sameOld.valid, slotOld]
    rfl
  have keptDir := upToReady.quiet.kept dir isDir.1 id
  have present := tree.block dir isDir
  have block₁ : ready.dirBlock dir = state.dirBlock dir :=
    keptDir.dirBlock live.sound locked.live.sound isDir.1 present
  rw [numberReady] at add
  obtain ⟨entry, freeEntry, absent, rfl, writes, live₂, frame₂⟩ :=
    locked.live.namesEntry (by rw [numberDir]; exact used)
      (by rw [slotDir]; rfl)
      (by rw [numberDir, keptDir.stored]; exact present) add success
  rw [numberDir, block₁] at freeEntry absent writes
  have frame₂ : Frame opened (· = dir) ready
      (ready.addEntry dirIp entry node name) :=
    frame₂.weaken fun inodeNum same => Eq.trans same numberDir
  have slot₂ : (ready.addEntry dirIp entry node name).icache oldIp =
      ready.icache oldIp := addEntry_icache_of_ne apartSlots.symm _
  have slotDir₂ : ((ready.addEntry dirIp entry node name).icache
      dirIp).inodeNum = dir := by
    rw [addEntry_icache_self]
    exact numberDir
  generalize ready.addEntry dirIp entry node name = added at *
  -- The count.
  have number₂ : (added.icache oldIp).inodeNum = node := by
    rw [slot₂, numberReady]
  have used₂ : (added.icache oldIp).inodeNum ≠ inodeNumUnused := by
    rw [number₂]
    exact usedOld
  have valid₂ : (added.icache oldIp).valid = true := by
    rw [slot₂, validReady]
  have stored₂ : added.dinodeAt node = state.dinodeAt node := by
    rw [writes.stored node smallNode,
      (upToReady.quiet.kept node smallNode id).stored]
  have backs := live₂.sound.backed oldIp used₂ valid₂
  rw [number₂, stored₂] at backs
  have fewer : ∀ k, ((added.icache oldIp).data.setNlink
      ((added.icache oldIp).data.nlink + 1)).addrs k =
      (added.icache oldIp).data.addrs k ∨
      ((added.icache oldIp).data.setNlink
        ((added.icache oldIp).data.nlink + 1)).addrs k = 0 :=
    fun _ => Or.inl rfl
  obtain ⟨live₃, frame₃⟩ := live₂.store used₂ valid₂ fewer
  have keeps₃ : KeepsData added (added.storeData oldIp
      ((added.icache oldIp).data.setNlink
        ((added.icache oldIp).data.nlink + 1))) (added.icache oldIp).inodeNum :=
    live₂.storeKeeps used₂ valid₂ rfl rfl rfl
  have disk₃ : ∀ index, 130 ≤ index → (added.storeData oldIp
      ((added.icache oldIp).data.setNlink
        ((added.icache oldIp).data.nlink + 1))).disk index =
      added.disk index :=
    fun index high => live₂.sound.storeData_disk used₂ (Or.inr high)
  have stored₃ : (added.storeData oldIp ((added.icache oldIp).data.setNlink
      ((added.icache oldIp).data.nlink + 1))).dinodeAt node =
      (added.icache oldIp).data.setNlink
        ((added.icache oldIp).data.nlink + 1) := by
    unfold State.storeData
    rw [number₂]
    exact dinodeAt_storeDinode_self node _
  have slotDir₃ : (added.storeData oldIp ((added.icache oldIp).data.setNlink
      ((added.icache oldIp).data.nlink + 1))).icache dirIp =
      added.icache dirIp := storeData_icache_of_ne apartSlots _
  have slot₃ : ((added.storeData oldIp ((added.icache oldIp).data.setNlink
      ((added.icache oldIp).data.nlink + 1))).icache oldIp).inodeNum =
      node := by
    rw [storeData_icache_self]
    exact number₂
  rw [number₂] at keeps₃
  have frame₃ := frame₃.weaken fun inodeNum same => Eq.trans same number₂
  generalize added.storeData oldIp _ = counted at *
  have freed := live₃.unlocksFree (by rw [slotDir₃, slotDir₂]; exact used) free
  have slot₄ : (released.icache oldIp).inodeNum = node := by
    obtain ⟨_, rfl, _⟩ := inodeUnlockFree_runs free
    rw [State.setInode_icache, Function.update_of_ne apartSlots.symm]
    exact slot₃
  have freedOld := freed.live.unlocksFree (by rw [slot₄]; exact usedOld) freeOld
  have done := freed.trans freedOld
  have live' := done.live
  have frame₃₄ : Frame opened (· = node) added final :=
    frame₃.trans done.quiet.frame
  have frame : Frame opened (fun inodeNum => inodeNum = dir ∨ inodeNum = node)
      state final :=
    upToReady.quiet.frame.trans ((frame₂.weaken fun _ => Or.inl).trans
      (frame₃₄.weaken fun _ => Or.inr))
  have apart : dir ≠ node := by
    rintro rfl
    exact isFile isDir
  have keptDir' := frame₃₄.kept dir isDir.1 apart
  have storedDir : added.dinodeAt dir = state.dinodeAt dir := by
    rw [writes.stored dir isDir.1, keptDir.stored]
  have storedNode' : final.dinodeAt node = (added.icache oldIp).data.setNlink
      ((added.icache oldIp).data.nlink + 1) := by
    rw [(done.quiet.kept node smallNode id).stored, stored₃]
  have block' : final.dirBlock dir =
      storeEntry (state.dirBlock dir) entry node name := by
    rw [keptDir'.dirBlock live₂.sound live'.sound isDir.1
      (by rw [storedDir]; exact present), writes.block]
  have isFile' : ¬final.IsDir node := by
    intro isDir
    have type := isDir.2.1
    rw [storedNode'] at type
    refine notDir ?_
    rw [← type, ← sameOld.data, ← slotReady, ← slot₂]
    rfl
  have nodeFree := entryOf_of_freeEntry freeEntry
  have linked : (final.dinodeAt node).nlink.toNat =
      (state.dinodeAt node).nlink.toNat + 1 := by
    have bound := tree.file_links_lt isDir nodeFree isFile
    rw [links_of_small smallNode] at bound
    rw [storedNode', backs.nlink] at *
    exact (UInt16.toNat_add _ _).trans (Nat.mod_eq_of_lt bound)
  have marked : bitAt final.inodeBitmap node.toNat = true :=
    frame.bits _ (tree.marked node smallNode
      (small_of_links (tree.search_linked leadsOld).1).2)
  refine ⟨dir, node, ⟨oldName, leadsOld⟩, ⟨name, leads⟩, isFile, live',
    tree.addFile live.sound live'.sound frame isDir fits nodeFree absent
      (keptDir'.stored.trans storedDir) block' smallNode isFile isFile' linked
      marked, frame, fun isOpen => ?_⟩
  have isOpen₁ := isOpen.congr upToReady.quiet.sameOpen
  have isOpen₂ := isOpen₁.congr frame₂.sameOpen
  have isOpen₃ := isOpen₂.congr frame₃.sameOpen
  exact (upToReady.quiet.keepsData smallNode isOpen id).trans
    ((frame₂.keepsData smallNode isOpen₁ apart.symm).trans (keeps₃.trans
      (done.quiet.keepsData smallNode isOpen₃ id)))

/-- The offset of an entry is never the one that reports a failure. -/
theorem entry_offset_ne (entry : EntryIndex) :
    UInt32.ofNat (direntSize * entry) ≠ 1024 := by
  revert entry
  decide

/-- A directory is not linked, and a name is not added twice. -/
theorem Live.linkFails
    (tree : DirTree state) (live : Live base opened held state)
    (few : held.length + 2 ≤ nInode)
    (run : (pathLink oldPath newPath).Runs state false final) :
    LeavesDisk base opened held state final := by
  simp only [pathLink, pathToInode, Program.runs_bind, Program.runs_pure] at run
  obtain ⟨_, _, ⟨old, found, searchOld, rfl, rfl⟩, run⟩ := run
  have walksOld := searchInode_walks tree live (by omega) searchOld
  cases old with
  | none =>
      simp only [Option.map_none, Program.runs_pure] at run
      obtain ⟨-, rfl⟩ := run
      exact walksOld.leavesDisk
  | some old =>
      obtain ⟨oldIp, oldName⟩ := old
      obtain ⟨-, usedOld⟩ := walksOld.found tree
      simp only [Option.map_some, Program.runs_bind, runs_getInode] at run
      obtain ⟨_, listed, lockOld, _, _, ⟨rfl, rfl⟩, run⟩ := run
      have liveFound : Live base opened (oldIp :: held) found := walksOld.live
      have lockedOld := liveFound.locks usedOld lockOld
      have upToList := walksOld.leavesDisk.trans lockedOld
      have slotOld : listed.icache oldIp = found.locked oldIp := by
        obtain ⟨_, _, rfl⟩ := inodeLock_runs lockOld
        rw [State.setInode_icache, Function.update_self]
      have usedListed : (listed.icache oldIp).inodeNum ≠ inodeNumUnused := by
        rw [slotOld]
        exact usedOld
      split at run
      · simp only [Program.runs_bind, Program.runs_pure] at run
        obtain ⟨_, _, free, -, rfl⟩ := run
        exact upToList.trans (lockedOld.live.unlocksFree usedListed free)
      · simp only [Program.runs_bind] at run
        obtain ⟨parent, walked, search, run⟩ := run
        have treeList := upToList.tree tree
        have walks := searchInode_walks treeList lockedOld.live
          (by rw [List.length_cons]; omega) search
        have sameOld := walks.slots oldIp (.head _) (by rw [slotOld]; rfl)
        have usedWalked : (walked.icache oldIp).inodeNum ≠ inodeNumUnused := by
          rw [sameOld.inodeNum]
          exact usedListed
        have upToWalk := upToList.trans walks.leavesDisk
        cases parent with
        | none =>
            simp only [Program.runs_bind, Program.runs_pure] at run
            obtain ⟨_, _, free, -, rfl⟩ := run
            have liveWalked : Live base opened (oldIp :: held) walked :=
              walks.live
            exact upToWalk.trans (liveWalked.unlocksFree usedWalked free)
        | some parent =>
            obtain ⟨dirIp, name⟩ := parent
            obtain ⟨-, used⟩ := walks.found treeList
            simp only [Program.runs_bind, runs_getInode] at run
            obtain ⟨_, ready, lock, _, _, ⟨rfl, rfl⟩, offset, added, add,
              run⟩ := run
            have liveWalked : Live base opened (dirIp :: oldIp :: held)
                walked := walks.live
            have locked := liveWalked.locks used lock
            obtain ⟨_, unlocked, rfl⟩ := inodeLock_runs lock
            have apartSlots : dirIp ≠ oldIp := by
              rintro rfl
              rw [sameOld.slk, slotOld] at unlocked
              cases unlocked
            split at run
            · next failed =>
              simp only [Program.runs_bind, Program.runs_pure] at run
              obtain ⟨_, released, free, _, _, freeOld, -, rfl⟩ := run
              obtain ⟨_, _, ⟨_, rfl, _⟩ | ⟨entry, rfl, _⟩⟩ :=
                dirAddEntry_runs add
              · have freed := locked.live.unlocksFree (by
                  rw [State.setInode_icache, Function.update_self]
                  exact used) free
                have freedOld := freed.live.unlocksFree (by
                  obtain ⟨_, rfl, _⟩ := inodeUnlockFree_runs free
                  rw [State.setInode_icache,
                    Function.update_of_ne apartSlots.symm,
                    State.setInode_icache,
                    Function.update_of_ne apartSlots.symm]
                  exact usedWalked) freeOld
                exact upToWalk.trans (locked.trans (freed.trans freedOld))
              · exact absurd failed (entry_offset_ne entry)
            · simp only [Program.runs_bind, Program.runs_pure] at run
              obtain ⟨_, _, _, _, _, _, _, _, _, _, _, _, absurd, _⟩ := run
              cases absurd

end Fs
end WhuOs
