import WhuOs.Fs.Linking

/-!
# Removing names

A call of `path_unlink` that succeeds removes one entry.  A file loses one
link, and its blocks with the last one, whether it is open or not.  A directory
is removed when it has no entries but its own two.
-/

namespace WhuOs
namespace Fs

open Library
open Program (Runs)

variable {state middle final : State} {opened : Slot → Nat}
variable {base : UInt16 → Nat} {held : List Slot} {ip dirIp : Slot}
variable {path name : CString}

/-! ## Dropping a link -/

/-- Taking a link of an inode away, and its blocks with the last link. -/
structure DropsLink (base : UInt16 → Nat) (opened : Slot → Nat)
    (held : List Slot) (state final : State) (ip : Slot) : Prop where
  live : Live base opened held final
  frame : Frame opened (ChangesSlot state ip) state final
  nlink : (final.dinodeAt (state.icache ip).inodeNum).nlink =
    (state.icache ip).data.nlink - 1
  type : (final.dinodeAt (state.icache ip).inodeNum).type =
    (state.icache ip).data.type
  number : (final.icache ip).inodeNum = (state.icache ip).inodeNum
  keeps : ((state.icache ip).data.nlink - 1 = 0 →
      (state.icache ip).data.size = 0 ∧
        ∀ k, (state.icache ip).data.addrs k = 0) →
    KeepsData state final (state.icache ip).inodeNum

/-- The end of `path_unlink` after the name is gone. -/
def dropLink (ip : Slot) : FsM Bool := do
  modifyData ip fun dinode => dinode.setNlink (dinode.nlink - 1)
  let inode ← getInode ip
  if inode.data.nlink = 0 then
    inodeFreeData ip
    inodeRw ip true
    inodeUnlockFree ip
    return true
  else
    inodeRw ip true
    inodeUnlockFree ip
    return true

theorem Live.dropsLink
    {result : Bool} (live : Live base opened held state)
    (used : (state.icache ip).inodeNum ≠ inodeNumUnused)
    (valid : (state.icache ip).valid = true)
    (run : (dropLink ip).Runs state result final) :
    result = true ∧ ∃ dropped, DropsLink base opened held state dropped ip ∧
      (inodeUnlockFree ip).Runs dropped () final := by
  simp only [dropLink, Program.runs_bind, runs_getInode] at run
  obtain ⟨_, changed, change, _, _, ⟨rfl, rfl⟩, run⟩ := run
  have reached := runs_modifyData.mp change
  have slot : changed.icache ip = (state.icache ip).setData
      ((state.icache ip).data.setNlink ((state.icache ip).data.nlink - 1)) := by
    rw [← reached]
    exact setData_icache_self ip _
  have nlink : (changed.icache ip).data.nlink =
      (state.icache ip).data.nlink - 1 := by
    rw [slot]
    rfl
  rw [nlink] at run
  split at run
  · next last =>
    simp only [Program.runs_bind, Program.runs_pure] at run
    obtain ⟨_, freed, free, _, dropped, write, _, _, unlock, rfl, rfl⟩ := run
    have sameChange : (modifyData ip fun dinode => dinode.setNlink
        ((state.icache ip).data.nlink - 1)).Runs state () changed :=
      runs_modifyData.mpr reached
    have released := release_runs (live.small used)
      (live.sound.wellFormed used valid) live.idle sameChange free write
    have zero := (state.icache ip).data.emptied_addrs
      ((state.icache ip).data.nlink - 1)
    have nlink' := (state.icache ip).data.emptied_nlink
      ((state.icache ip).data.nlink - 1)
    have type' := (state.icache ip).data.emptied_type
      ((state.icache ip).data.nlink - 1)
    have size' := (state.icache ip).data.emptied_size
      ((state.icache ip).data.nlink - 1)
    generalize (state.icache ip).data.emptied _ = dinode at *
    subst released
    obtain ⟨live', frame'⟩ := live.release used valid zero
    have stored : (state.release ip dinode).dinodeAt
        (state.icache ip).inodeNum = dinode := live.release_dinodeAt used
    refine ⟨rfl, _, ⟨live', frame', by rw [stored, nlink'],
      by rw [stored, type'], ?_, fun empty => ?_⟩, unlock⟩
    · have slot : (state.release ip dinode).icache ip =
          (state.icache ip).setData dinode := storeData_icache_self dinode
      rw [slot]
      rfl
    · obtain ⟨size, absent⟩ := empty last
      exact live.release_keeps used valid zero type' (size'.trans size.symm)
        absent
  · next more =>
    simp only [Program.runs_bind, Program.runs_pure] at run
    obtain ⟨_, dropped, write, _, _, unlock, rfl, rfl⟩ := run
    obtain ⟨_, rfl⟩ := storeData_of_runs change write
    have fewer : ∀ k, ((state.icache ip).data.setNlink
        ((state.icache ip).data.nlink - 1)).addrs k =
        (state.icache ip).data.addrs k ∨
        ((state.icache ip).data.setNlink
          ((state.icache ip).data.nlink - 1)).addrs k = 0 :=
      fun _ => Or.inl rfl
    obtain ⟨live', frame'⟩ := live.store used valid fewer
    have stored : (state.storeData ip ((state.icache ip).data.setNlink
        ((state.icache ip).data.nlink - 1))).dinodeAt
          (state.icache ip).inodeNum = (state.icache ip).data.setNlink
            ((state.icache ip).data.nlink - 1) :=
      dinodeAt_storeDinode_self _ _
    refine ⟨rfl, _, ⟨live', frame', by rw [stored]; rfl, by rw [stored]; rfl,
      ?_, fun _ => live.storeKeeps used valid rfl rfl rfl⟩, unlock⟩
    rw [storeData_icache_self]
    rfl

theorem finishUnlink_eq :
    finishUnlink dirIp ip name = (do
      let _ ← dirDeleteEntry dirIp name
      inodeUnlockFree dirIp
      dropLink ip) := rfl

theorem finishUnlink_not_false :
    ¬(finishUnlink dirIp ip name).Runs state false final := by
  intro run
  simp only [finishUnlink, Program.runs_bind] at run
  obtain ⟨_, _, _, _, _, _, _, _, _, _, _, _, run⟩ := run
  split at run
  · simp only [Program.runs_bind, Program.runs_pure] at run
    obtain ⟨_, _, _, _, _, _, _, _, _, absurd, _⟩ := run
    cases absurd
  · simp only [Program.runs_bind, Program.runs_pure] at run
    obtain ⟨_, _, _, _, _, _, absurd, _⟩ := run
    cases absurd

/-! ## Steps of the call -/

/-- The steps of a call that succeeds. -/
theorem pathUnlink_stages
    (run : (pathUnlink path).Runs state true final) :
    ∃ dirIp name found listed ip taken ready counted,
      (pathToPinode path).Runs state (some (dirIp, name)) found ∧
      (inodeLock dirIp).Runs found () listed ∧
      name ≠ dot ∧ name ≠ dotDot ∧
      lookupName (listed.dirData dirIp) name ≠ inodeNumUnused ∧
      (inodeAlloc (lookupName (listed.dirData dirIp) name)).Runs listed ip
        taken ∧
      (inodeLock ip).Runs taken () ready ∧
      (if (ready.icache ip).data.type = ftDir then
        (usedEntries (ready.dirData ip)).length = 2 ∧
          counted = ready.storeData dirIp ((ready.icache dirIp).data.setNlink
            ((ready.icache dirIp).data.nlink - 1))
        else counted = ready) ∧
      (finishUnlink dirIp ip name).Runs counted true final := by
  simp only [pathUnlink, Program.runs_bind] at run
  obtain ⟨parent, found, search, run⟩ := run
  cases parent with
  | none =>
      simp only [Program.runs_pure] at run
      cases run.1
  | some parent =>
      obtain ⟨dirIp, name⟩ := parent
      simp only [Program.runs_bind] at run
      obtain ⟨_, listed, lock, run⟩ := run
      split at run
      · simp only [Program.runs_bind, Program.runs_pure] at run
        obtain ⟨_, _, _, absurd, _⟩ := run
        cases absurd
      · next plain =>
        simp only [Program.runs_bind] at run
        obtain ⟨_, searched, lookup, run⟩ := run
        obtain ⟨_, _, _, same, rfl⟩ := dirSearchEntry_runs lookup
        rw [same] at run
        split at run
        · simp only [Program.runs_bind, Program.runs_pure] at run
          obtain ⟨_, _, _, absurd, _⟩ := run
          cases absurd
        · next named =>
          simp only [Program.runs_bind, runs_getInode] at run
          obtain ⟨ip, taken, alloc, _, ready, lockNode, _, _, ⟨rfl, rfl⟩,
            run⟩ := run
          obtain ⟨notDot, notDotDot⟩ := not_or.mp plain
          split at run
          · next isDir =>
            simp only [Program.runs_bind] at run
            obtain ⟨empty, checked, check, run⟩ := run
            obtain ⟨same, two⟩ := checkUnlink_runs check
            rw [same] at run
            cases empty with
            | false =>
                simp only [Bool.false_eq_true, if_false, Program.runs_bind,
                  Program.runs_pure] at run
                obtain ⟨_, _, _, _, _, _, absurd, _⟩ := run
                cases absurd
            | true =>
                rw [if_pos rfl] at run
                simp only [Program.runs_bind] at run
                obtain ⟨_, _, change, _, counted, write, run⟩ := run
                obtain ⟨_, rfl⟩ := storeData_of_runs change write
                exact ⟨dirIp, name, found, listed, ip, taken, ready, _, search,
                  lock, notDot, notDotDot, named, alloc, lockNode,
                  (if_pos isDir).symm ▸ ⟨two rfl, rfl⟩, run⟩
          · next isFile =>
            exact ⟨dirIp, name, found, listed, ip, taken, ready, ready, search,
              lock, notDot, notDotDot, named, alloc, lockNode,
              (if_neg isFile).symm ▸ rfl, run⟩

/-- The directory and the inode of a name, both locked. -/
structure FindsNode (base : UInt16 → Nat) (opened : Slot → Nat)
    (held : List Slot) (state ready : State) (path : CString)
    (dirIp ip : Slot) (dir node : UInt16) (name : CString)
    (entry : EntryIndex) : Prop where
  leaves : LeavesDisk base opened (ip :: dirIp :: held) state ready
  leads : state.search path true = some (dir, name)
  isDir : state.IsDir dir
  fits : name.Fits
  found : findEntry (state.dirBlock dir) name = some entry
  leadsTo : state.nameIn dir name = node
  listed : state.directories.entries dir entry = some (name.bytes, node)
  linked : state.directories.links node ≠ 0
  dirNumber : (ready.icache dirIp).inodeNum = dir
  dirValid : (ready.icache dirIp).valid = true
  number : (ready.icache ip).inodeNum = node
  valid : (ready.icache ip).valid = true
  apartSlots : dirIp ≠ ip

theorem Live.findsNode
    {found listed taken ready : State} (tree : DirTree state)
    (live : Live base opened held state) (few : held.length + 2 ≤ nInode)
    (search : (pathToPinode path).Runs state (some (dirIp, name)) found)
    (lock : (inodeLock dirIp).Runs found () listed)
    (named : lookupName (listed.dirData dirIp) name ≠ inodeNumUnused)
    (alloc : (inodeAlloc (lookupName (listed.dirData dirIp) name)).Runs listed
      ip taken)
    (lockNode : (inodeLock ip).Runs taken () ready) :
    ∃ dir node entry, FindsNode base opened held state ready path dirIp ip dir
      node name entry := by
  have walks := searchInode_walks tree live (by omega) search
  obtain ⟨leads, used⟩ := walks.found tree
  obtain ⟨dir, isNumber⟩ : ∃ dir, dir = (found.icache dirIp).inodeNum :=
    ⟨_, rfl⟩
  rw [← isNumber] at leads used
  obtain ⟨isDir, fits⟩ := (tree.search_linked leads).2 rfl
  have present := tree.block dir isDir
  have liveFound : Live base opened (dirIp :: held) found := walks.live
  have locked := liveFound.locks (isNumber ▸ used) lock
  obtain ⟨_, _, rfl⟩ := inodeLock_runs lock
  generalize reached : found.setInode dirIp (found.locked dirIp) = listed at *
  have slotDir : listed.icache dirIp = found.locked dirIp := by
    rw [← reached, State.setInode_icache, Function.update_self]
  have numberDir : (listed.icache dirIp).inodeNum = dir := by
    rw [slotDir, isNumber]
    rfl
  have validDir : (listed.icache dirIp).valid = true := by
    rw [slotDir]
    rfl
  have upToList := walks.leavesDisk.trans locked
  have keptDir := upToList.quiet.kept dir isDir.1 id
  have block₁ : listed.dirBlock dir = state.dirBlock dir :=
    keptDir.dirBlock live.sound locked.live.sound isDir.1 present
  have data : listed.dirData dirIp = state.dirBlock dir := by
    rw [locked.live.sound.dirData (by rw [numberDir]; exact used) validDir
      (by rw [numberDir, keptDir.stored]; exact present), numberDir, block₁]
  rw [data] at named alloc
  obtain ⟨node, isNode⟩ : ∃ node, node = lookupName (state.dirBlock dir) name :=
    ⟨_, rfl⟩
  rw [← isNode] at named alloc
  have nameIn : state.nameIn dir name = node := isNode.symm
  rcases tree.nameIn_cases isDir fits with ⟨_, absent, _⟩ |
    ⟨entry, foundEntry, isListed, linked⟩
  · exact absurd (nameIn.symm.trans absent) named
  rw [nameIn] at isListed linked
  obtain ⟨small, linked'⟩ := small_of_links linked
  have bits := upToList.quiet.bits _ (tree.marked node small linked')
  obtain ⟨live₂, quiet₂, number, sameDisk, slots⟩ := locked.live.alloc
    (by rw [List.length_cons]; omega) small bits alloc
  have leaves₂ : LeavesDisk base opened (ip :: dirIp :: held) listed taken :=
    ⟨live₂, quiet₂, sameDisk⟩
  have leaves₃ := live₂.locks (by rw [number]; exact named) lockNode
  have sameDir := slots dirIp (locked.live.held_ref_ne_zero (.head _))
  obtain ⟨_, unlocked, rfl⟩ := inodeLock_runs lockNode
  have apartSlots : dirIp ≠ ip := by
    rintro rfl
    rw [sameDir.slk, slotDir] at unlocked
    cases unlocked
  have slotDir₃ : (taken.setInode ip (taken.locked ip)).icache dirIp =
      taken.icache dirIp := by
    rw [State.setInode_icache, Function.update_of_ne apartSlots]
  have slot₃ : (taken.setInode ip (taken.locked ip)).icache ip =
      taken.locked ip := by
    rw [State.setInode_icache, Function.update_self]
  refine ⟨dir, node, entry, upToList.trans (leaves₂.trans leaves₃), leads,
    isDir, fits, foundEntry, nameIn, isListed, linked, ?_, ?_, ?_, ?_,
    apartSlots⟩
  · rw [slotDir₃, sameDir.inodeNum, numberDir]
  · rw [slotDir₃, sameDir.valid, validDir]
  · rw [slot₃]
    exact number
  · rw [slot₃]
    rfl

/-- The name is gone and the inode has one link less. -/
structure RemovesName (base : UInt16 → Nat) (opened : Slot → Nat)
    (held : List Slot) (state final : State) (dir node : UInt16)
    (entry : EntryIndex) : Prop where
  live : Live base opened held final
  frame : Frame opened (fun inodeNum => inodeNum = dir ∨ inodeNum = node) state
    final
  block : final.dirBlock dir = clearEntry (state.dirBlock dir) entry
  storedDir : final.dinodeAt dir = state.dinodeAt dir
  nlink : (final.dinodeAt node).nlink = (state.dinodeAt node).nlink - 1
  type : (final.dinodeAt node).type = (state.dinodeAt node).type
  keeps : OpenInode opened state node →
    ((state.dinodeAt node).nlink - 1 = 0 → (state.dinodeOf node).size = 0 ∧
      ∀ k, (state.dinodeOf node).addrs k = 0) → KeepsData state final node

theorem Live.removesName
    {dir node : UInt16} {entry : EntryIndex} {result : Bool}
    (live : Live base opened (ip :: dirIp :: held) state)
    (dirNumber : (state.icache dirIp).inodeNum = dir)
    (dirValid : (state.icache dirIp).valid = true)
    (number : (state.icache ip).inodeNum = node)
    (valid : (state.icache ip).valid = true) (apartSlots : dirIp ≠ ip)
    (usedDir : dir ≠ inodeNumUnused) (used : node ≠ inodeNumUnused)
    (present : (state.dinodeAt dir).addrs 0 ≠ 0)
    (found : findEntry (state.dirBlock dir) name = some entry)
    (run : (finishUnlink dirIp ip name).Runs state result final) :
    RemovesName base opened held state final dir node entry := by
  subst dirNumber number
  rw [finishUnlink_eq] at run
  simp only [Program.runs_bind] at run
  obtain ⟨_, deleted, delete, _, left, free, drop⟩ := run
  obtain ⟨sameCache, live₁, frame₁, writes⟩ :=
    live.deletesEntry usedDir dirValid present delete
  rw [found] at writes
  have live₁ := live₁.perm (.swap dirIp ip held)
  have freed := live₁.unlocksFree (by rw [sameCache]; exact usedDir) free
  have slot : left.icache ip = state.icache ip := by
    obtain ⟨_, rfl, _⟩ := inodeUnlockFree_runs free
    rw [State.setInode_icache, Function.update_of_ne apartSlots.symm,
      sameCache]
  have smallNode := live.small used
  have smallDir := live.small usedDir
  have apart : (state.icache dirIp).inodeNum ≠ (state.icache ip).inodeNum :=
    fun same => apartSlots (live.sound.unique _ _ usedDir same)
  obtain ⟨_, dropped, drops, unlock⟩ := freed.live.dropsLink
    (by rw [slot]; exact used) (by rw [slot]; exact valid) drop
  obtain ⟨liveDrop, frameDrop, nlink, type, numberDrop, keeps⟩ := drops
  rw [slot] at nlink type numberDrop keeps
  have frameDrop : Frame opened (· = (state.icache ip).inodeNum) left dropped :=
    frameDrop.weaken fun inodeNum same => by
      unfold ChangesSlot at same
      rw [same, slot]
  have done := liveDrop.unlocksFree (by rw [numberDrop]; exact used) unlock
  have frame₂ : Frame opened (· = (state.icache ip).inodeNum) deleted final :=
    freed.quiet.frame.trans (frameDrop.trans done.quiet.frame)
  have keptDir := frame₂.kept _ smallDir apart
  have keptNode := done.quiet.kept _ smallNode id
  have backs := live.sound.backed ip used valid
  have current := dinodeOf_valid live.sound.unique used valid
  refine ⟨done.live, (frame₁.weaken fun _ => Or.inl).trans
    (frame₂.weaken fun _ => Or.inr), ?_, ?_, ?_, ?_, fun isOpen empty => ?_⟩
  · rw [keptDir.dirBlock live₁.sound done.live.sound smallDir
      (by rw [writes.stored _ smallDir]; exact present), writes.block]
  · rw [keptDir.stored, writes.stored _ smallDir]
  · rw [keptNode.stored, nlink, backs.nlink]
  · rw [keptNode.stored, type, backs.type]
  · have isOpen₁ := isOpen.congr frame₁.sameOpen
    have isOpen₂ := isOpen₁.congr freed.quiet.sameOpen
    have isOpen₃ := isOpen₂.congr frameDrop.sameOpen
    rw [backs.nlink, current] at empty
    exact (frame₁.keepsData smallNode isOpen apart.symm).trans
      ((freed.quiet.keepsData smallNode isOpen₁ id).trans
        ((keeps empty).trans
          (done.quiet.keepsData smallNode isOpen₃ id)))

/-! ## Removing a file or a directory -/

/-- What a call that removes a name leaves behind. -/
structure UnlinksNode (base : UInt16 → Nat) (opened : Slot → Nat)
    (held : List Slot) (state final : State) (path : CString)
    (dir node : UInt16) : Prop where
  leads : ∃ name, state.search path true = some (dir, name) ∧
    state.nameIn dir name = node
  linked : (state.dinodeAt node).nlink ≠ 0
  live : Live base opened held final
  tree : DirTree final
  frame : Frame opened (fun inodeNum => inodeNum = dir ∨ inodeNum = node) state
    final
  nlink : (final.dinodeAt node).nlink = (state.dinodeAt node).nlink - 1
  type : (final.dinodeAt node).type = (state.dinodeAt node).type
  keeps : OpenInode opened state node →
    ((state.dinodeAt node).nlink = 1 → (state.dinodeOf node).size = 0 ∧
      ∀ k, (state.dinodeOf node).addrs k = 0) → KeepsData state final node

theorem sub_one_toNat {links : UInt16} (linked : links ≠ 0) :
    (links - 1).toNat + 1 = links.toNat := by
  have positive : 0 < links.toNat :=
    Nat.pos_of_ne_zero fun zero => linked (UInt16.toNat_inj.mp zero)
  have bound := links.toNat_lt
  rw [UInt16.toNat_sub]
  show (2 ^ 16 - 1 + links.toNat) % 2 ^ 16 + 1 = links.toNat
  omega

theorem eq_one_of_sub_one {links : UInt16} (last : links - 1 = 0) :
    links = 1 := by
  rw [← UInt16.sub_add_cancel links 1, last]
  rfl

theorem CString.ext {first second : CString}
    (same : first.bytes = second.bytes) : first = second := by
  cases first
  cases second
  cases same
  rfl

/-- Removing a name of a file. -/
theorem DirTree.removeFile
    {dir node : UInt16} {entry : EntryIndex}
    (tree : DirTree state) (sound : Sound state)
    (isDir : state.IsDir dir) (isFile : ¬state.IsDir node)
    (listed : state.directories.entries dir entry = some (name.bytes, node))
    (removes : RemovesName base opened held state final dir node entry) :
    DirTree final := by
  have apart : dir ≠ node := by
    rintro rfl
    exact isFile isDir
  obtain ⟨small, linked⟩ := small_of_links (tree.consistent.alive listed)
  have isDir' : final.IsDir dir := by
    unfold State.IsDir
    rw [removes.storedDir]
    exact isDir
  have isFile' : ¬final.IsDir node := by
    rintro ⟨_, type, _⟩
    rw [removes.type] at type
    exact isFile ⟨small, type, linked⟩
  have sound' := removes.live.sound
  have same : Directories.RemovesFile state.directories final.directories dir
      entry node := by
    refine ⟨⟨_, listed⟩, isFile, ?_, ?_, ?_, ?_, ?_⟩
    · rw [entries_of_isDir isDir', removes.block]
      exact entryOf_clearEntry_self
    · intro other place elsewhere
      by_cases sameDir : other = dir
      · subst sameDir
        have differs : place ≠ entry := fun same =>
          elsewhere (Prod.ext rfl same)
        rw [entries_of_isDir isDir', entries_of_isDir isDir, removes.block,
          entryOf_clearEntry_of_ne differs]
      · by_cases sameNode : other = node
        · subst sameNode
          exact (if_neg isFile').trans (if_neg isFile).symm
        · exact (removes.frame.sameNode tree sound sound'
            (fun changed => changed.elim sameDir sameNode)).entries place
    · intro other
      by_cases sameDir : other = dir
      · subst sameDir
        exact ⟨fun _ => isDir, fun _ => isDir'⟩
      · by_cases sameNode : other = node
        · subst sameNode
          exact ⟨fun isDir => absurd isDir isFile', fun isDir =>
            absurd isDir isFile⟩
        · exact (removes.frame.sameNode tree sound sound'
            (fun changed => changed.elim sameDir sameNode)).isDir
    · rw [links_of_small small, links_of_small small, removes.nlink]
      exact sub_one_toNat linked
    · intro other differs
      by_cases sameDir : other = dir
      · subst sameDir
        rw [links_of_small isDir.1, links_of_small isDir.1, removes.storedDir]
      · exact (removes.frame.sameNode tree sound sound'
          (fun changed => changed.elim sameDir differs)).links
  refine tree.of_frame removes.frame (tree.consistent.removeFile same) ?_ ?_
  · rintro other (rfl | rfl) isDir''
    · rw [removes.storedDir]
      exact tree.block other isDir
    · exact absurd isDir'' isFile'
  · rintro other (rfl | rfl)
    · exact removes.frame.bits _ (tree.marked other isDir.1 isDir.2.2)
    · exact removes.frame.bits _ (tree.marked other small linked)

/-- A directory with two entries has no entries but its own two. -/
theorem DirTree.leaf_of_two
    {node : UInt16} (tree : DirTree state) (isDir : state.IsDir node)
    (two : (usedEntries (state.dirBlock node)).length = 2)
    {place : EntryIndex} {name : List UInt8} {child : UInt16}
    (listed : state.directories.entries node place = some (name, child)) :
    name = dot.bytes ∨ name = dotDot.bytes := by
  obtain ⟨selfPlace, self⟩ := tree.consistent.self isDir
  obtain ⟨upPlace, above, up, _⟩ := tree.consistent.parent isDir
  have isUsed : ∀ {place used}, state.directories.entries node place =
      some used → place ∈ usedEntries (state.dirBlock node) := by
    intro place used listed
    rw [entries_of_isDir isDir] at listed
    unfold usedEntries
    rw [List.mem_filter, decide_eq_true_eq]
    refine ⟨List.mem_finRange place, fun unused => ?_⟩
    rw [entryOf_eq_none.mpr unused] at listed
    cases listed
  have apart : selfPlace ≠ upPlace := by
    rintro rfl
    exact dot_ne_dotDot (Prod.mk.inj (Option.some.inj (self.symm.trans up))).1
  have nodup : (usedEntries (state.dirBlock node)).Nodup :=
    (List.nodup_finRange direntPerBlock).filter _
  by_contra other
  rw [not_or] at other
  have notSelf : place ≠ selfPlace := by
    rintro rfl
    exact other.1 (Prod.mk.inj (Option.some.inj (listed.symm.trans self))).1
  have notUp : place ≠ upPlace := by
    rintro rfl
    exact other.2 (Prod.mk.inj (Option.some.inj (listed.symm.trans up))).1
  have three : [place, selfPlace, upPlace].Nodup := by
    simp [notSelf, notUp, apart]
  have within : [place, selfPlace, upPlace] ⊆
      usedEntries (state.dirBlock node) := by
    simp [isUsed listed, isUsed self, isUsed up]
  have bound := (List.subperm_of_subset three within).length_le
  rw [two] at bound
  simp at bound

/-- Removing an empty directory. -/
theorem DirTree.removeDir
    {dir node : UInt16} {entry : EntryIndex}
    (tree : DirTree state) (sound : Sound state) (sound' : Sound final)
    (frame : Frame opened (fun inodeNum => inodeNum = dir ∨ inodeNum = node)
      state final)
    (isDir : state.IsDir dir) (isChild : state.IsDir node)
    (apart : dir ≠ node)
    (listed : state.directories.entries dir entry = some (name.bytes, node))
    (notDot : name.bytes ≠ dot.bytes) (notDotDot : name.bytes ≠ dotDot.bytes)
    (leaf : ∀ place name child, state.directories.entries node place =
      some (name, child) → name = dot.bytes ∨ name = dotDot.bytes)
    (block : final.dirBlock dir = clearEntry (state.dirBlock dir) entry)
    (type : (final.dinodeAt dir).type = (state.dinodeAt dir).type)
    (links : (final.dinodeAt dir).nlink = (state.dinodeAt dir).nlink - 1)
    (first : (final.dinodeAt dir).addrs 0 = (state.dinodeAt dir).addrs 0)
    (unlinked : (final.dinodeAt node).nlink =
      (state.dinodeAt node).nlink - 1) : DirTree final := by
  obtain ⟨notRoot, up⟩ := tree.consistent.below listed notDot notDotDot isChild
  have isBelow : node ∈ state.directories.children dotDot.bytes inodeRoot
      dir := ⟨isChild, notRoot, up⟩
  have some := Set.ncard_pos (Set.toFinite _) |>.mpr ⟨_, isBelow⟩
  have dirLinks := tree.consistent.dirLinks isDir
  have childLinks := tree.consistent.links_of_leaf isChild leaf
  rw [links_of_small isDir.1] at dirLinks
  rw [links_of_small isChild.1] at childLinks
  have fewer := sub_one_toNat isDir.2.2
  rw [← links] at fewer
  have none := sub_one_toNat isChild.2.2
  rw [← unlinked] at none
  have isDir' : final.IsDir dir := by
    refine ⟨isDir.1, type.trans isDir.2.1, fun zero => ?_⟩
    rw [zero] at fewer
    have absurd : (0 : UInt16).toNat = 0 := rfl
    omega
  have zero : (final.dinodeAt node).nlink = 0 :=
    UInt16.toNat_inj.mp (show _ = 0 by omega)
  have notDir : ¬final.IsDir node := fun isDir => isDir.2.2 zero
  have removes : Directories.RemovesDir dot.bytes dotDot.bytes
      state.directories final.directories dir entry node := by
    refine ⟨⟨_, notDot, notDotDot, listed⟩, isChild, leaf, ?_, ?_, ?_, ?_, ?_,
      ?_, ?_⟩
    · rw [entries_of_isDir isDir', block]
      exact entryOf_clearEntry_self
    · exact fun place => if_neg notDir
    · intro other place notNode elsewhere
      by_cases sameDir : other = dir
      · subst sameDir
        have differs : place ≠ entry := fun same =>
          elsewhere (Prod.ext rfl same)
        rw [entries_of_isDir isDir', entries_of_isDir isDir, block,
          entryOf_clearEntry_of_ne differs]
      · exact (frame.sameNode tree sound sound'
          (fun changed => changed.elim sameDir notNode)).entries place
    · intro other
      by_cases sameDir : other = dir
      · subst sameDir
        exact ⟨fun _ => ⟨apart, isDir⟩, fun _ => isDir'⟩
      · by_cases sameNode : other = node
        · subst sameNode
          exact ⟨fun isDir => absurd isDir notDir, fun both =>
            absurd rfl both.1⟩
        · have same := (frame.sameNode tree sound sound'
            (fun changed => changed.elim sameDir sameNode)).isDir
          exact ⟨fun isDir => ⟨sameNode, same.mp isDir⟩, fun both =>
            same.mpr both.2⟩
    · rw [links_of_small isChild.1, zero]
      rfl
    · rw [links_of_small isDir.1, links_of_small isDir.1]
      exact fewer
    · intro other notNode notDir
      exact (frame.sameNode tree sound sound'
        (fun changed => changed.elim notDir notNode)).links
  refine tree.of_frame frame (tree.consistent.removeDir removes) ?_ ?_
  · rintro other (rfl | rfl) isDir''
    · rw [first]
      exact tree.block other isDir
    · exact absurd isDir'' notDir
  · rintro other (rfl | rfl)
    · exact frame.bits _ (tree.marked other isDir.1 isDir.2.2)
    · exact frame.bits _ (tree.marked other isChild.1 isChild.2.2)

theorem Live.unlinksNode
    (tree : DirTree state) (live : Live base opened held state)
    (few : held.length + 2 ≤ nInode)
    (run : (pathUnlink path).Runs state true final) :
    ∃ dir node, UnlinksNode base opened held state final path dir node := by
  obtain ⟨dirIp, name, found, listed, ip, taken, ready, counted, search, lock,
    notDot, notDotDot, named, alloc, lockNode, count, finish⟩ :=
    pathUnlink_stages run
  obtain ⟨dir, node, entry, finds⟩ := live.findsNode tree few search lock named
    alloc lockNode
  have isDir := finds.isDir
  obtain ⟨small, linked⟩ := small_of_links finds.linked
  have usedDir := ne_unused_of_small isDir.1
  have used := ne_unused_of_small small
  have present := tree.block dir isDir
  have liveReady := finds.leaves.live
  have quiet := finds.leaves.quiet
  have sameDisk := finds.leaves.disk
  have table : ∀ other, ready.dinodeAt other = state.dinodeAt other := by
    intro other
    unfold State.dinodeAt
    rw [sameDisk]
  have blocks : ∀ other, ready.dirBlock other = state.dirBlock other := by
    intro other
    unfold State.dirBlock
    rw [table, sameDisk]
  have type : (ready.icache ip).data.type = (state.dinodeAt node).type := by
    rw [liveReady.sound.slot_type (by rw [finds.number]; exact used)
      finds.valid, finds.number, table]
  have found : findEntry (ready.dirBlock dir) name = some entry := by
    rw [blocks]
    exact finds.found
  rw [type] at count
  split at count
  · next isDirType =>
    obtain ⟨two, rfl⟩ := count
    have isChild : state.IsDir node := ⟨small, isDirType, linked⟩
    have data : ready.dirData ip = state.dirBlock node := by
      rw [liveReady.sound.dirData (by rw [finds.number]; exact used) finds.valid
        (by rw [finds.number, table]; exact tree.block node isChild),
        finds.number, blocks]
    rw [data] at two
    have counts := liveReady.countsDir (by rw [finds.dirNumber]; exact usedDir)
      finds.dirValid (by rw [finds.dirNumber, table]; exact present)
      ((ready.icache dirIp).data.nlink - 1)
    have backs := liveReady.sound.backed dirIp
      (by rw [finds.dirNumber]; exact usedDir) finds.dirValid
    rw [finds.dirNumber] at counts backs
    have dirSlot : (ready.storeData dirIp ((ready.icache dirIp).data.setNlink
        ((ready.icache dirIp).data.nlink - 1))).icache dirIp =
        (ready.icache dirIp).setData ((ready.icache dirIp).data.setNlink
          ((ready.icache dirIp).data.nlink - 1)) := storeData_icache_self _
    have slot : (ready.storeData dirIp ((ready.icache dirIp).data.setNlink
        ((ready.icache dirIp).data.nlink - 1))).icache ip = ready.icache ip :=
      storeData_icache_of_ne finds.apartSlots.symm _
    have apart : dir ≠ node := by
      rintro rfl
      exact finds.apartSlots (liveReady.sound.unique _ _
        (by rw [finds.dirNumber]; exact usedDir)
        (finds.dirNumber.trans finds.number.symm))
    generalize ready.storeData dirIp _ = counted at *
    have removes := counts.live.removesName
      (by rw [dirSlot]; exact finds.dirNumber)
      (by rw [dirSlot]; exact finds.dirValid)
      (by rw [slot]; exact finds.number) (by rw [slot]; exact finds.valid)
      finds.apartSlots usedDir used
      (by rw [counts.first, table]; exact present)
      (by rw [counts.block]; exact found) finish
    have keptNode := counts.frame.kept node small apart.symm
    have frame : Frame opened (fun inodeNum => inodeNum = dir ∨
        inodeNum = node) state final :=
      quiet.frame.trans ((counts.frame.weaken fun _ => Or.inl).trans
        removes.frame)
    have nlink : (final.dinodeAt node).nlink =
        (state.dinodeAt node).nlink - 1 := by
      rw [removes.nlink, keptNode.stored, table]
    have tree' : DirTree final := by
      refine tree.removeDir live.sound removes.live.sound frame isDir isChild
        apart finds.listed (fun same => notDot (CString.ext same))
        (fun same => notDotDot (CString.ext same))
        (fun _ _ _ => tree.leaf_of_two isChild two) ?_ ?_ ?_ ?_ nlink
      · rw [removes.block, counts.block, blocks]
      · rw [removes.storedDir, counts.type, table]
      · rw [removes.storedDir, counts.nlink, ← backs.nlink, table]
      · rw [removes.storedDir, counts.first, table]
    refine ⟨dir, node, ⟨name, finds.leads, finds.leadsTo⟩, linked, removes.live,
      tree', frame, nlink, by rw [removes.type, keptNode.stored, table],
      fun isOpen empty => ?_⟩
    have isOpen₁ := isOpen.congr quiet.sameOpen
    have isOpen₂ := isOpen₁.congr counts.frame.sameOpen
    refine (quiet.keepsData small isOpen id).trans
      ((counts.frame.keepsData small isOpen₁ apart.symm).trans
        (removes.keeps isOpen₂ fun last => ?_))
    rw [keptNode.stored, table] at last
    rw [keptNode.current isOpen₁, (quiet.kept node small id).current isOpen]
    exact empty (eq_one_of_sub_one last)
  · next isFileType =>
    rw [count] at finish
    have isFile : ¬ready.IsDir node := by
      intro isDir
      have type := isDir.2.1
      rw [table] at type
      exact isFileType type
    have removes := liveReady.removesName finds.dirNumber finds.dirValid
      finds.number finds.valid finds.apartSlots usedDir used
      (by rw [table]; exact present) found finish
    have isDir' : ready.IsDir dir := (quiet.kept dir isDir.1 id).isDir.mpr isDir
    have listed' : ready.directories.entries dir entry =
        some (name.bytes, node) := by
      rw [directories_congr sameDisk]
      exact finds.listed
    refine ⟨dir, node, ⟨name, finds.leads, finds.leadsTo⟩, linked, removes.live,
      (tree.congr sameDisk).removeFile liveReady.sound isDir' isFile listed' removes,
      quiet.frame.trans removes.frame, by rw [removes.nlink, table],
      by rw [removes.type, table], fun isOpen empty => ?_⟩
    refine (quiet.keepsData small isOpen id).trans
      (removes.keeps (isOpen.congr quiet.sameOpen) fun last => ?_)
    rw [table] at last
    rw [(quiet.kept node small id).current isOpen]
    exact empty (eq_one_of_sub_one last)

/-- A name that is missing, that of a directory in use, or one of its own
two. -/
theorem Live.unlinkFails
    (tree : DirTree state) (live : Live base opened held state)
    (few : held.length + 2 ≤ nInode)
    (run : (pathUnlink path).Runs state false final) :
    LeavesDisk base opened held state final := by
  simp only [pathUnlink, Program.runs_bind] at run
  obtain ⟨parent, found, search, run⟩ := run
  have walks := searchInode_walks tree live (by omega) search
  cases parent with
  | none =>
      simp only [Program.runs_pure] at run
      obtain ⟨-, rfl⟩ := run
      exact walks.leavesDisk
  | some parent =>
      obtain ⟨dirIp, name⟩ := parent
      obtain ⟨-, used⟩ := walks.found tree
      simp only [Program.runs_bind] at run
      obtain ⟨_, listed, lock, run⟩ := run
      have liveFound : Live base opened (dirIp :: held) found := walks.live
      have locked := liveFound.locks used lock
      have upToList := walks.leavesDisk.trans locked
      have usedListed : (listed.icache dirIp).inodeNum ≠ inodeNumUnused := by
        obtain ⟨_, _, rfl⟩ := inodeLock_runs lock
        rw [State.setInode_icache, Function.update_self]
        exact used
      split at run
      · simp only [Program.runs_bind, Program.runs_pure] at run
        obtain ⟨_, _, free, -, rfl⟩ := run
        exact upToList.trans (locked.live.unlocksFree usedListed free)
      · simp only [Program.runs_bind] at run
        obtain ⟨_, searched, lookup, run⟩ := run
        obtain ⟨_, _, _, same, rfl⟩ := dirSearchEntry_runs lookup
        rw [same] at run
        split at run
        · simp only [Program.runs_bind, Program.runs_pure] at run
          obtain ⟨_, _, free, -, rfl⟩ := run
          exact upToList.trans (locked.live.unlocksFree usedListed free)
        · next named =>
          simp only [Program.runs_bind, runs_getInode] at run
          obtain ⟨ip, taken, alloc, _, ready, lockNode, _, _, ⟨rfl, rfl⟩,
            run⟩ := run
          obtain ⟨dir, node, entry, finds⟩ := live.findsNode tree few search
            lock named alloc lockNode
          have linked := DirTree.nameIn_ne_unused finds.linked
          split at run
          · simp only [Program.runs_bind] at run
            obtain ⟨empty, checked, check, run⟩ := run
            obtain ⟨same, _⟩ := checkUnlink_runs check
            rw [same] at run
            cases empty with
            | true =>
                rw [if_pos rfl] at run
                simp only [Program.runs_bind] at run
                obtain ⟨_, _, _, _, _, _, finish⟩ := run
                exact absurd finish finishUnlink_not_false
            | false =>
                simp only [Bool.false_eq_true, if_false, Program.runs_bind,
                  Program.runs_pure] at run
                obtain ⟨_, _, free, _, _, freeDir, -, rfl⟩ := run
                have freed := finds.leaves.live.unlocksFree
                  (by rw [finds.number]; exact linked) free
                have freedDir := freed.live.unlocksFree (by
                  obtain ⟨_, rfl, _⟩ := inodeUnlockFree_runs free
                  rw [State.setInode_icache,
                    Function.update_of_ne finds.apartSlots, finds.dirNumber]
                  exact ne_unused_of_small finds.isDir.1) freeDir
                exact finds.leaves.trans (freed.trans freedDir)
          · exact absurd run finishUnlink_not_false

end Fs
end WhuOs
