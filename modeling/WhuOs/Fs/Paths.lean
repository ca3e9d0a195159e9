import WhuOs.Fs.DirTree

/-!
# Following paths

`search_inode` takes the inodes of a path into the cache one after the other.
In a directory tree it ends where the names of the path lead on disk.
-/

namespace WhuOs
namespace Fs

open Library
open Program (Runs)

variable {state middle final : State} {opened : Slot → Nat}
variable {base : UInt16 → Nat} {held : List Slot} {ip : Slot}
variable {inodeNum : UInt16} {name : CString}

/-- The inode number a directory has for a name, or `inodeNumUnused`. -/
def State.nameIn (state : State) (inodeNum : UInt16) (name : CString) :
    UInt16 :=
  lookupName (state.dirBlock inodeNum) name

/-- Where the loop of `search_inode` ends. -/
def State.follow (state : State) (findParent : Bool) (inodeNum : UInt16) :
    (elements : List CString) → Option (UInt16 × CString)
  | [] => if findParent then none else some (inodeNum, dot)
  | name :: rest =>
      if (state.dinodeAt inodeNum).type ≠ ftDir then
        none
      else if findParent ∧ rest = [] then
        some (inodeNum, name)
      else if state.nameIn inodeNum name = inodeNumUnused then
        none
      else
        state.follow findParent (state.nameIn inodeNum name) rest

/-- Where `search_inode` ends. -/
def State.search (state : State) (path : CString) (findParent : Bool) :
    Option (UInt16 × CString) :=
  state.follow findParent inodeRoot (pathElements path path.bytes.length)

/-- Where a path leads depends on the disk only. -/
theorem follow_congr
    (same : final.disk = state.disk) (findParent : Bool)
    (elements : List CString) :
    final.follow findParent inodeNum elements =
      state.follow findParent inodeNum elements := by
  obtain ⟨disk, _, _, _⟩ := state
  obtain ⟨disk', _, _, _⟩ := final
  change disk' = disk at same
  subst same
  induction elements generalizing inodeNum with
  | nil => rfl
  | cons name rest inductionHypothesis =>
      unfold State.follow
      rw [inductionHypothesis]
      rfl

/-! ## Names -/

theorem skipElement_fits
    {path rest : CString} (skipped : skipElement path = some (name, rest)) :
    name.Fits := by
  unfold skipElement at skipped
  simp only at skipped
  split at skipped
  · cases skipped
  · next present =>
    obtain ⟨rfl, _⟩ := Prod.mk.inj (Option.some.inj skipped)
    constructor
    · intro empty
      rw [List.take_eq_nil_iff] at empty
      rcases empty with zero | empty
      · cases zero
      · obtain ⟨byte, bytes, split⟩ := List.exists_cons_of_ne_nil present
        have first := List.head_dropWhile_not (· = slash) present
        rw [split] at empty
        simp only [split, List.head_cons] at first
        rw [List.takeWhile_cons_of_pos (by simpa using first)] at empty
        cases empty
    · refine Nat.lt_of_le_of_lt (List.length_take_le _ _) (by decide)

theorem pathElements_fits
    {path : CString} {fuel : Nat} (member : name ∈ pathElements path fuel) :
    name.Fits := by
  induction fuel generalizing path with
  | zero => cases member
  | succ fuel inductionHypothesis =>
      unfold pathElements at member
      cases skipped : skipElement path with
      | none =>
          rw [skipped] at member
          cases member
      | some found =>
          obtain ⟨first, rest⟩ := found
          rw [skipped] at member
          rcases List.mem_cons.mp member with rfl | later
          · exact skipElement_fits skipped
          · exact inductionHypothesis later

/-- A name of a directory leads to an inode with links. -/
theorem DirTree.nameIn_cases
    (tree : DirTree state) (isDir : state.IsDir inodeNum) (fits : name.Fits) :
    (findEntry (state.dirBlock inodeNum) name = none ∧
      state.nameIn inodeNum name = inodeNumUnused ∧
      ∀ entry other, state.directories.entries inodeNum entry ≠
        some (name.bytes, other)) ∨
    ∃ entry, findEntry (state.dirBlock inodeNum) name = some entry ∧
      state.directories.entries inodeNum entry =
        some (name.bytes, state.nameIn inodeNum name) ∧
      state.directories.links (state.nameIn inodeNum name) ≠ 0 := by
  unfold State.nameIn lookupName
  cases found : findEntry (state.dirBlock inodeNum) name with
  | none =>
      refine Or.inl ⟨rfl, rfl, fun entry other listed => ?_⟩
      rw [entries_of_isDir isDir] at listed
      exact (findEntry_eq_none fits).mp found entry other listed
  | some entry =>
      have listed : state.directories.entries inodeNum entry =
          some (name.bytes, entryInode (state.dirBlock inodeNum) entry) := by
        rw [entries_of_isDir isDir]
        exact entryOf_of_findEntry fits found
      exact Or.inr ⟨entry, rfl, listed, tree.consistent.alive listed⟩

theorem DirTree.nameIn_ne_unused
    (linked : state.directories.links inodeNum ≠ 0) :
    inodeNum ≠ inodeNumUnused :=
  ne_unused_of_small (small_of_links linked).1

/-- The root directory. -/
theorem DirTree.root (tree : DirTree state) : state.IsDir inodeRoot :=
  tree.consistent.rootDir

/-! ## The loop -/

/-- What following a path leaves behind: the fields of all inodes are as they
were, and the slots that the caller has locked. -/
structure Walks (base : UInt16 → Nat) (opened : Slot → Nat)
    (held : List Slot) (state final : State)
    (result : Option (Slot × CString))
    (target : Option (UInt16 × CString)) : Prop where
  live : Live base opened (foundSlot result ++ held) final
  quiet : Quiet opened state final
  disk : final.disk = state.disk
  target : result.map (fun found =>
    ((final.icache found.1).inodeNum, found.2)) = target
  slots : ∀ slot ∈ held, (state.icache slot).slk = true →
    SameSlot state final slot

theorem sameSlot_setRef (slot : Slot) (ref : UInt32) :
    SameSlot state (state.setInode ip ((state.icache ip).setRef ref)) slot := by
  by_cases same : slot = ip
  · subst same
    exact ⟨ref, by simp⟩
  · exact ⟨(state.icache slot).ref, by simp [same]; rfl⟩

theorem sameSlot_setInode {slot : Slot} (differs : slot ≠ ip) (inode : Inode) :
    SameSlot state (state.setInode ip inode) slot :=
  ⟨(state.icache slot).ref, by simp [differs]; rfl⟩

theorem searchLoop_walks
    {findParent : Bool} {elements : List CString}
    {result : Option (Slot × CString)}
    (tree : DirTree state) (live : Live base opened (ip :: held) state)
    (few : held.length < nInode)
    (fits : ∀ name ∈ elements, name.Fits)
    (linked : state.directories.links (state.icache ip).inodeNum ≠ 0)
    (run : (searchLoop findParent ip elements).Runs state result final) :
    Walks base opened held state final result
      (state.follow findParent (state.icache ip).inodeNum elements) := by
  induction elements generalizing state ip with
  | nil =>
      have used := DirTree.nameIn_ne_unused linked
      cases findParent with
      | true =>
          simp only [searchLoop, if_true, Program.runs_bind,
            Program.runs_pure] at run
          obtain ⟨_, _, free, rfl, rfl⟩ := run
          obtain ⟨live', quiet⟩ := live.free used free
          obtain ⟨rfl, _⟩ := inodeFree_runs free
          exact ⟨live', quiet, rfl, rfl, fun slot _ _ =>
            sameSlot_setRef slot _⟩
      | false =>
          simp only [searchLoop, Bool.false_eq_true, if_false,
            Program.runs_pure] at run
          obtain ⟨rfl, rfl⟩ := run
          exact ⟨live, Frame.refl, rfl, rfl, fun slot _ _ =>
            SameSlot.refl slot⟩
  | cons name rest inductionHypothesis =>
      have used := DirTree.nameIn_ne_unused linked
      obtain ⟨small, hasLinks⟩ := small_of_links linked
      simp only [searchLoop, Program.runs_bind, runs_getInode] at run
      obtain ⟨_, _, lock, _, _, ⟨rfl, rfl⟩, run⟩ := run
      obtain ⟨live₁, quiet₁⟩ := live.lock used lock
      obtain ⟨_, unlocked, rfl⟩ := inodeLock_runs lock
      have slot₁ : (state.setInode ip (state.locked ip)).icache ip =
          state.locked ip := by simp
      have type : (state.locked ip).data.type =
          (state.dinodeAt (state.icache ip).inodeNum).type :=
        (live.sound.backs_locked used).type.symm
      have apart : ∀ slot, (state.icache slot).slk = true → slot ≠ ip := by
        rintro slot locked rfl
        rw [unlocked] at locked
        cases locked
      have used₁ : ((state.setInode ip (state.locked ip)).icache ip).inodeNum ≠
          inodeNumUnused := by
        rw [slot₁]
        exact used
      rw [slot₁, type] at run
      unfold State.follow
      split at run
      · next notDir =>
        simp only [Program.runs_bind, Program.runs_pure] at run
        obtain ⟨_, _, free, rfl, rfl⟩ := run
        obtain ⟨live₂, quiet₂⟩ := live₁.unlockFree used₁ free
        obtain ⟨_, rfl, _⟩ := inodeUnlockFree_runs free
        exact ⟨live₂, quiet₁.trans quiet₂, rfl, (if_pos notDir).symm,
          fun slot _ locked => (sameSlot_setInode (apart slot locked) _).trans
            (sameSlot_setInode (apart slot locked) _)⟩
      · next isDir =>
        rw [not_not] at isDir
        rw [if_neg (not_not.mpr isDir)]
        split at run
        · next last =>
          simp only [Program.runs_bind, Program.runs_pure] at run
          obtain ⟨_, _, unlock, rfl, rfl⟩ := run
          obtain ⟨live₂, quiet₂⟩ := live₁.unlock used₁ unlock
          obtain ⟨_, rfl⟩ := inodeUnlock_runs unlock
          refine ⟨live₂, quiet₁.trans quiet₂, rfl, ?_,
            fun slot _ locked => (sameSlot_setInode (apart slot locked)
              _).trans (sameSlot_setInode (apart slot locked) _)⟩
          rw [if_pos last, slot₁]
          simp only [Option.map_some, State.setInode_icache,
            Function.update_self, Inode.setSlk_inodeNum]
          rfl
        · next more =>
          rw [if_neg more]
          simp only [Program.runs_bind] at run
          obtain ⟨nextInum, _, search, run⟩ := run
          obtain ⟨_, _, _, rfl, found⟩ := dirSearchEntry_runs search
          have isDir' : state.IsDir (state.icache ip).inodeNum :=
            ⟨small, isDir, hasLinks⟩
          have data := live₁.sound.dirData used₁ (by rw [slot₁]; rfl)
            (by rw [slot₁]; exact tree.block _ isDir')
          rw [slot₁] at data
          have next : nextInum =
              state.nameIn (state.icache ip).inodeNum name := by
            rw [found, data]
            rfl
          subst next
          split at run
          · next unused =>
            rw [if_pos unused]
            simp only [Program.runs_bind, Program.runs_pure] at run
            obtain ⟨_, _, free, rfl, rfl⟩ := run
            obtain ⟨live₂, quiet₂⟩ := live₁.unlockFree used₁ free
            obtain ⟨_, rfl, _⟩ := inodeUnlockFree_runs free
            exact ⟨live₂, quiet₁.trans quiet₂, rfl, rfl, fun slot _ locked =>
              (sameSlot_setInode (apart slot locked) _).trans
                (sameSlot_setInode (apart slot locked) _)⟩
          · next listed =>
            rw [if_neg listed]
            simp only [Program.runs_bind] at run
            obtain ⟨_, _, unlock, _, _, free, next, middle, alloc, run⟩ := run
            obtain ⟨live₂, quiet₂⟩ := live₁.unlock used₁ unlock
            obtain ⟨_, rfl⟩ := inodeUnlock_runs unlock
            have used₂ : (((state.setInode ip (state.locked ip)).setInode ip
                (((state.setInode ip (state.locked ip)).icache ip).setSlk
                  false)).icache ip).inodeNum ≠ inodeNumUnused := by
              rw [State.setInode_icache, Function.update_self, slot₁]
              exact used
            obtain ⟨live₃, quiet₃⟩ := live₂.free used₂ free
            obtain ⟨rfl, _⟩ := inodeFree_runs free
            obtain ⟨_, _, _, linked'⟩ :=
              (tree.nameIn_cases isDir' (fits name (.head _))).resolve_left
                fun absent => listed absent.2.1
            obtain ⟨small', hasLinks'⟩ := small_of_links linked'
            obtain ⟨live₄, quiet₄, number, sameDisk, slots⟩ := live₃.alloc
              (Nat.le_of_lt few) small' (tree.marked _ small' hasLinks') alloc
            have sameDisk : middle.disk = state.disk := sameDisk
            have walks := inductionHypothesis (tree.congr sameDisk) live₄
              (fun name member => fits name (.tail _ member))
              (by rwa [number, directories_congr sameDisk]) run
            rw [number, follow_congr sameDisk] at walks
            refine ⟨walks.live, quiet₁.trans (quiet₂.trans (quiet₃.trans
              (quiet₄.trans walks.quiet))), walks.disk.trans sameDisk,
              walks.target, fun slot member locked => ?_⟩
            have differs := apart slot locked
            have upToAlloc : SameSlot state middle slot :=
              (sameSlot_setInode differs _).trans <|
                (sameSlot_setInode differs _).trans <|
                  (sameSlot_setInode differs _).trans <|
                    slots slot (live₃.held_ref_ne_zero member)
            exact upToAlloc.trans (walks.slots slot member
              (upToAlloc.slk.trans locked))

theorem searchInode_walks
    {path : CString} {findParent : Bool} {result : Option (Slot × CString)}
    (tree : DirTree state) (live : Live base opened held state)
    (few : held.length < nInode)
    (run : (searchInode path findParent).Runs state result final) :
    Walks base opened held state final result
      (state.search path findParent) := by
  simp only [searchInode, Program.runs_bind] at run
  obtain ⟨ip, middle, alloc, run⟩ := run
  obtain ⟨small, _, linked⟩ := tree.root
  obtain ⟨live₁, quiet₁, number, sameDisk, slots⟩ := live.alloc
    (Nat.le_of_lt few) small (tree.marked _ small linked) alloc
  have walks := searchLoop_walks (tree.congr sameDisk) live₁ few
    (fun _ => pathElements_fits) (by
      rw [number, directories_congr sameDisk]
      exact links_ne_zero small linked) run
  rw [number, follow_congr sameDisk] at walks
  refine ⟨walks.live, quiet₁.trans walks.quiet, walks.disk.trans sameDisk,
    walks.target, fun slot member locked => ?_⟩
  have first := slots slot (live.held_ref_ne_zero member)
  exact first.trans (walks.slots slot member (first.slk.trans locked))

/-! ## What a path leads to -/

/-- A path leads to an inode with links. -/
theorem DirTree.follow_linked
    {findParent : Bool} {elements : List CString} {target : UInt16 × CString}
    (tree : DirTree state) (fits : ∀ name ∈ elements, name.Fits)
    (linked : state.directories.links inodeNum ≠ 0)
    (leads : state.follow findParent inodeNum elements = some target) :
    state.directories.links target.1 ≠ 0 ∧
      (findParent = true → state.IsDir target.1 ∧ target.2.Fits) := by
  induction elements generalizing inodeNum with
  | nil =>
      unfold State.follow at leads
      split at leads
      · cases leads
      · next notParent =>
        obtain rfl := Option.some.inj leads
        exact ⟨linked, fun isParent => absurd isParent notParent⟩
  | cons name rest inductionHypothesis =>
      unfold State.follow at leads
      split at leads
      · cases leads
      · next isDir =>
        rw [not_not] at isDir
        obtain ⟨small, hasLinks⟩ := small_of_links linked
        have isDir' : state.IsDir inodeNum := ⟨small, isDir, hasLinks⟩
        split at leads
        · obtain rfl := Option.some.inj leads
          exact ⟨linked, fun _ => ⟨isDir', fits name (.head _)⟩⟩
        · split at leads
          · cases leads
          · next listed =>
            obtain ⟨_, _, _, linked'⟩ :=
              (tree.nameIn_cases isDir' (fits name (.head _))).resolve_left
                fun absent => listed absent.2.1
            exact inductionHypothesis
              (fun other member => fits other (.tail _ member)) linked' leads

theorem DirTree.search_linked
    {path : CString} {findParent : Bool} {target : UInt16 × CString}
    (tree : DirTree state)
    (leads : state.search path findParent = some target) :
    state.directories.links target.1 ≠ 0 ∧
      (findParent = true → state.IsDir target.1 ∧ target.2.Fits) :=
  tree.follow_linked (fun _ => pathElements_fits)
    (links_ne_zero tree.root.1 tree.root.2.2) leads

end Fs
end WhuOs
