import WhuOs.Fs.DirMap
import WhuOs.Fs.Frame
import WhuOs.Fs.LastRelease
import WhuOs.Fs.Paths

/-!
# Walks that return

A path lookup takes an inode, locks it, searches it, and gives it back before it
takes the next.  So between two steps every reference is as it was, and slots
without references are the only ones that change hands.  From a state between
two calls, a lookup returns if each inode on its way is not locked and is cached
or finds a free slot.
-/

namespace WhuOs
namespace Fs

open Library
open Program (Runs)

variable {start state : State} {ip : Slot} {inodeNum : UInt16}
  {holding : Option Slot} {name : CString}

/-! ## What lookups use -/

/-- The fields of an inode that lookups use, and the block of a directory that
has a name. -/
structure SameUse (inodeNum : UInt16) (first second : Dinode) : Prop where
  type : first.type = second.type
  nlink : first.nlink = second.nlink
  block : second.type = ftDir → (inodeNum = inodeRoot ∨ second.nlink ≠ 0) →
    first.addrs 0 = second.addrs 0

theorem SameUse.refl (inodeNum : UInt16) (dinode : Dinode) :
    SameUse inodeNum dinode dinode :=
  ⟨rfl, rfl, fun _ _ => rfl⟩

theorem SameUse.trans
    {first second third : Dinode} (lower : SameUse inodeNum first second)
    (upper : SameUse inodeNum second third) :
    SameUse inodeNum first third := by
  refine ⟨lower.type.trans upper.type, lower.nlink.trans upper.nlink,
    fun isDir named => ?_⟩
  rw [lower.block (upper.type.trans isDir) (by rwa [upper.nlink]),
    upper.block isDir named]

theorem SameUse.symm
    {first second : Dinode} (same : SameUse inodeNum first second) :
    SameUse inodeNum second first := by
  refine ⟨same.type.symm, same.nlink.symm, fun isDir named => ?_⟩
  rw [same.type] at isDir
  rw [same.nlink] at named
  exact (same.block isDir named).symm

/-- The inode number of a name in a directory. -/
def State.childOf (state : State) (inodeNum : UInt16) (name : CString) :
    Option UInt16 :=
  if (state.dinodeOf inodeNum).type ≠ ftDir then
    none
  else
    let child := lookupName (state.disk
      (diskIndex ((state.dinodeOf inodeNum).addrs 0))) name
    if child = inodeNumUnused then none else some child

theorem childOf_ne_unused
    {child : UInt16} (found : state.childOf inodeNum name = some child) :
    child ≠ inodeNumUnused := by
  unfold State.childOf at found
  dsimp only at found
  split_ifs at found with _ named
  exact Option.some.inj found ▸ named

/-- A name that is found is listed. -/
theorem childOf_listed
    {dir child : UInt16} (found : state.childOf dir name = some child) :
    (state.dinodeOf dir).type = ftDir ∧ child ≠ inodeNumUnused ∧
      ∃ entry listed,
        entryOf (state.disk (diskIndex ((state.dinodeOf dir).addrs 0)))
          entry = some (listed, child) := by
  have used := childOf_ne_unused found
  unfold State.childOf at found
  dsimp only at found
  split_ifs at found with notDir unlisted
  refine ⟨not_not.mp notDir, used, ?_⟩
  have number := Option.some.inj found
  unfold lookupName at number unlisted
  cases search : findEntry
      (state.disk (diskIndex ((state.dinodeOf dir).addrs 0))) name with
  | none =>
      rw [search] at unlisted
      exact absurd rfl unlisted
  | some entry =>
      rw [search] at number
      have matched := List.find?_some search
      unfold matchesName at matched
      rw [decide_eq_true_eq] at matched
      exact ⟨entry, _, entryOf_eq_some.mpr ⟨matched.1, rfl, number⟩⟩

/-- Where the loop of `search_inode` ends, with the last name. -/
def State.target (state : State) (findParent : Bool) (inodeNum : UInt16) :
    (elements : List CString) → Option (UInt16 × CString)
  | [] => if findParent then none else some (inodeNum, dot)
  | name :: rest =>
      if (state.dinodeOf inodeNum).type ≠ ftDir then
        none
      else if findParent ∧ rest = [] then
        some (inodeNum, name)
      else
        match state.childOf inodeNum name with
        | none => none
        | some child => state.target findParent child rest

/-- The inodes that the loop of `search_inode` takes. -/
def State.visits (state : State) (findParent : Bool) (inodeNum : UInt16) :
    (elements : List CString) → List UInt16
  | [] => [inodeNum]
  | name :: rest => inodeNum ::
      if (state.dinodeOf inodeNum).type ≠ ftDir then
        []
      else if findParent ∧ rest = [] then
        []
      else
        match state.childOf inodeNum name with
        | none => []
        | some child => state.visits findParent child rest

/-! ## States between calls -/

/-- A slot of an inode is referenced. -/
def State.Referenced (state : State) (inodeNum : UInt16) : Prop :=
  ∃ ip, (state.icache ip).inodeNum = inodeNum ∧ (state.icache ip).ref ≠ 0

/-- A slot for an inode can be found. -/
def State.Available (state : State) (inodeNum : UInt16) : Prop :=
  state.Referenced inodeNum ∨ ∃ ip, (state.icache ip).ref = 0

/-- No slot of an inode is locked. -/
def State.InodeUnlocked (state : State) (inodeNum : UInt16) : Prop :=
  ∀ ip, (state.icache ip).inodeNum = inodeNum → (state.icache ip).slk = false

/-- An inode that can be given back without being deleted. -/
def State.Stays (state : State) (inodeNum : UInt16) : Prop :=
  state.Referenced inodeNum ∨ (state.dinodeOf inodeNum).nlink ≠ 0

/-- An inode of the table that has a link. -/
def State.Linked (state : State) (inodeNum : UInt16) : Prop :=
  inodeNum.toNat < maxInodes ∧ (state.dinodeOf inodeNum).nlink ≠ 0

/-- The root or an inode that has a link. -/
def State.Named (state : State) (inodeNum : UInt16) : Prop :=
  inodeNum = inodeRoot ∨ state.Linked inodeNum

/-- A state between two calls.  Each inode has one slot, locked slots are
referenced, slots without references hold what is on disk, and directories
have blocks whose names lead to linked inodes. -/
structure Settled (state : State) : Prop where
  idle : state.held = []
  cacheIdle : state.lkIcache = false
  unique : UniqueSlots state
  locked : ∀ ip, (state.icache ip).slk = true → (state.icache ip).ref ≠ 0
  countable : ∀ ip, (state.icache ip).ref + 1 ≠ 0
  backed : ∀ ip, (state.icache ip).inodeNum ≠ inodeNumUnused →
    (state.icache ip).ref = 0 → (state.icache ip).valid = true →
    SameUse (state.icache ip).inodeNum
      (state.dinodeAt (state.icache ip).inodeNum) (state.icache ip).data
  inside : ∀ inodeNum, state.Named inodeNum →
    (state.dinodeOf inodeNum).type = ftDir →
    diskIndex ((state.dinodeOf inodeNum).addrs 0) < totalBlocks
  linked : ∀ inodeNum name child, state.Named inodeNum →
    state.childOf inodeNum name = some child → state.Linked child
  root : state.Stays inodeRoot

theorem Settled.stays
    (settled : Settled state) (named : state.Named inodeNum) :
    state.Stays inodeNum := by
  rcases named with rfl | linked
  · exact settled.root
  · exact Or.inr linked.2

section Tree

variable {base : UInt16 → Nat} {opened : Slot → Nat} {held : List Slot}

/-- The block of a directory with a name is the one on disk. -/
theorem DirTree.isDir_of_named
    (tree : DirTree state) (sound : Sound state)
    (named : state.Named inodeNum)
    (isDir : (state.dinodeOf inodeNum).type = ftDir) :
    state.IsDir inodeNum ∧ (state.dinodeOf inodeNum).addrs 0 =
      (state.dinodeAt inodeNum).addrs 0 := by
  have is : state.IsDir inodeNum := by
    rcases named with rfl | ⟨small, linked⟩
    · exact tree.root
    · have backs := sound.backs small
      exact ⟨small, backs.type.trans isDir, by rwa [backs.nlink]⟩
  have stored := sound.root_of_stored is.1 (tree.block inodeNum is)
  unfold State.root at stored
  rw [if_pos is.1] at stored
  exact ⟨is, stored⟩

/-- The entries of a directory with a name list linked inodes. -/
theorem DirTree.listed_linked
    {dir child : UInt16} {entry : EntryIndex} {listed : List UInt8}
    (tree : DirTree state) (sound : Sound state) (named : state.Named dir)
    (isDir : (state.dinodeOf dir).type = ftDir)
    (isListed : entryOf
      (state.disk (diskIndex ((state.dinodeOf dir).addrs 0))) entry =
        some (listed, child)) :
    state.Linked child := by
  obtain ⟨is, stored⟩ := tree.isDir_of_named sound named isDir
  rw [stored] at isListed
  have linked := small_of_links (tree.consistent.alive
    ((entries_of_isDir is entry).trans isListed))
  refine ⟨linked.1, ?_⟩
  rw [← (sound.backs linked.1).nlink]
  exact linked.2

/-- The block of a directory in the cache is the one on disk. -/
theorem DirTree.sameUse
    {dinode : Dinode} (tree : DirTree state)
    (small : inodeNum.toNat < maxInodes)
    (backs : Backs (state.dinodeAt inodeNum) dinode) :
    SameUse inodeNum (state.dinodeAt inodeNum) dinode := by
  refine ⟨backs.type, backs.nlink, fun isDir named => ?_⟩
  refine (backs.addrs 0).resolve_right (tree.block inodeNum ⟨small,
    backs.type.trans isDir, ?_⟩)
  rcases named with rfl | linked
  · exact tree.root.2.2
  · rwa [backs.nlink]

/-- A tree of directories on a disk that the cache agrees with is fit for
lookups. -/
theorem DirTree.settled
    (tree : DirTree state) (live : Live base opened held state)
    (few : held.length ≤ nInode) (cacheIdle : state.lkIcache = false)
    (locked : ∀ ip, (state.icache ip).slk = true → ip ∈ held) :
    Settled state where
  idle := live.idle
  cacheIdle := cacheIdle
  unique := live.sound.unique
  locked ip isLocked := live.held_ref_ne_zero (locked ip isLocked)
  countable ip zero := by
    have bound := live.references.ref_lt few ip
    have sum := congrArg UInt32.toNat zero
    rw [UInt32.toNat_add] at sum
    have one : (1 : UInt32).toNat = 1 := rfl
    have none : (0 : UInt32).toNat = 0 := rfl
    omega
  backed ip used _ valid := tree.sameUse (live.sound.small ip used)
    (live.sound.backed ip used valid)
  inside dir named isDir := by
    obtain ⟨is, stored⟩ := tree.isDir_of_named live.sound named isDir
    have marked := live.sound.marked_first is.1 (tree.block dir is)
    rw [stored, marked.diskIndex_eq]
    exact marked.2.1
  linked dir name child named found := by
    obtain ⟨isDir, used, entry, listed, isListed⟩ := childOf_listed found
    exact tree.listed_linked live.sound named isDir isListed
  root := by
    refine Or.inr ?_
    rw [← (live.sound.backs tree.root.1).nlink]
    exact tree.root.2.2

end Tree

/-- A state during a lookup that holds one reference at most. -/
structure During (start state : State) (holding : Option Slot) : Prop where
  disk : state.disk = start.disk
  idle : state.held = []
  cacheIdle : state.lkIcache = false
  unique : UniqueSlots state
  refs : ∀ slot, (state.icache slot).ref = (start.icache slot).ref +
    if holding = some slot then 1 else 0
  locks : ∀ slot, (state.icache slot).slk = (start.icache slot).slk
  numbers : ∀ slot, (start.icache slot).ref ≠ 0 →
    (state.icache slot).inodeNum = (start.icache slot).inodeNum
  backed : ∀ slot, (state.icache slot).inodeNum ≠ inodeNumUnused →
    (start.icache slot).ref = 0 → (state.icache slot).valid = true →
    SameUse (state.icache slot).inodeNum
      (start.dinodeAt (state.icache slot).inodeNum) (state.icache slot).data
  uses : ∀ inodeNum, inodeNum ≠ inodeNumUnused →
    SameUse inodeNum (state.dinodeOf inodeNum) (start.dinodeOf inodeNum)

theorem Settled.during (settled : Settled start) : During start start none where
  disk := rfl
  idle := settled.idle
  cacheIdle := settled.cacheIdle
  unique := settled.unique
  refs _ := (UInt32.add_zero _).symm
  locks _ := rfl
  numbers _ _ := rfl
  backed := settled.backed
  uses _ _ := SameUse.refl _ _

namespace During

theorem dinodeAt
    (during : During start state holding) (inodeNum : UInt16) :
    state.dinodeAt inodeNum = start.dinodeAt inodeNum := by
  unfold State.dinodeAt
  rw [during.disk]

theorem childOf
    (during : During start state holding) (used : inodeNum ≠ inodeNumUnused)
    (named : start.Named inodeNum) (name : CString) :
    state.childOf inodeNum name = start.childOf inodeNum name := by
  have same := during.uses inodeNum used
  unfold State.childOf
  rw [same.type]
  by_cases isDir : (start.dinodeOf inodeNum).type = ftDir
  · rw [same.block isDir (named.imp_right And.right), during.disk]
  · rw [if_pos isDir, if_pos isDir]

/-- A slot with references has its inode throughout. -/
theorem slot_of_referenced
    (during : During start state holding)
    (referenced : start.Referenced inodeNum) :
    ∃ slot, (state.icache slot).inodeNum = inodeNum ∧
      (start.icache slot).ref ≠ 0 := by
  obtain ⟨slot, number, referenced⟩ := referenced
  exact ⟨slot, (during.numbers slot referenced).trans number, referenced⟩

/-- What a slot stands for. -/
theorem locked_uses
    (during : During start state holding)
    (used : (state.icache ip).inodeNum ≠ inodeNumUnused) :
    SameUse (state.icache ip).inodeNum (state.locked ip).data
      (start.dinodeOf (state.icache ip).inodeNum) := by
  rw [← dinodeOf_slot during.unique used]
  exact during.uses _ used

/-- The disk has what a slot stands for that had no references. -/
theorem dinodeAt_uses
    (during : During start state holding)
    (used : (state.icache ip).inodeNum ≠ inodeNumUnused)
    (free : (start.icache ip).ref = 0) :
    SameUse (state.icache ip).inodeNum
      (start.dinodeAt (state.icache ip).inodeNum)
      (start.dinodeOf (state.icache ip).inodeNum) := by
  have uses := during.locked_uses used
  by_cases valid : (state.icache ip).valid = true
  · rw [locked_data_of_valid valid] at uses
    exact (during.backed ip used free valid).trans uses
  · have data : (state.locked ip).data =
        state.dinodeAt (state.icache ip).inodeNum := if_neg valid
    rw [data, during.dinodeAt] at uses
    exact uses

/-! ## Changes of one slot -/

/-- A step of a lookup changes one slot. -/
theorem setInode
    {holding' : Option Slot} {inode : Inode}
    (during : During start state holding)
    (unique : UniqueSlots (state.setInode ip inode))
    (ref : inode.ref = (start.icache ip).ref +
      if holding' = some ip then 1 else 0)
    (others : ∀ slot, slot ≠ ip →
      (holding' = some slot ↔ holding = some slot))
    (lock : inode.slk = (start.icache ip).slk)
    (number : (start.icache ip).ref ≠ 0 →
      inode.inodeNum = (start.icache ip).inodeNum)
    (backed : inode.inodeNum ≠ inodeNumUnused → (start.icache ip).ref = 0 →
      inode.valid = true →
      SameUse inode.inodeNum (start.dinodeAt inode.inodeNum) inode.data)
    (uses : ∀ inodeNum, inodeNum ≠ inodeNumUnused →
      SameUse inodeNum ((state.setInode ip inode).dinodeOf inodeNum)
        (start.dinodeOf inodeNum)) :
    During start (state.setInode ip inode) holding' := by
  have self : (state.setInode ip inode).icache ip = inode :=
    Function.update_self _ _ _
  have slots : ∀ slot, slot ≠ ip →
      (state.setInode ip inode).icache slot = state.icache slot :=
    fun slot differs => Function.update_of_ne differs _ _
  refine ⟨during.disk, during.idle, during.cacheIdle, unique, fun slot => ?_,
    fun slot => ?_, fun slot referenced => ?_, fun slot used free valid => ?_,
    uses⟩
  · by_cases here : slot = ip
    · rw [here, self, ref]
    · rw [slots slot here, during.refs slot]
      simp only [others slot here]
  · by_cases here : slot = ip
    · rw [here, self, lock]
    · rw [slots slot here, during.locks slot]
  · by_cases here : slot = ip
    · rw [here] at referenced ⊢
      rw [self, number referenced]
    · rw [slots slot here, during.numbers slot referenced]
  · by_cases here : slot = ip
    · rw [here, self] at used valid ⊢
      rw [here] at free
      exact backed used free valid
    · rw [slots slot here] at used valid ⊢
      exact during.backed slot used free valid

/-- The same inode, held or not. -/
theorem setSame
    {holding' : Option Slot} {inode : Inode}
    (during : During start state holding)
    (used : (state.icache ip).inodeNum ≠ inodeNumUnused)
    (sameNum : inode.inodeNum = (state.icache ip).inodeNum)
    (sameData : (if inode.valid then inode.data
      else state.dinodeAt (state.icache ip).inodeNum) =
        (state.locked ip).data)
    (lock : inode.slk = (state.icache ip).slk)
    (ref : inode.ref = (start.icache ip).ref +
      if holding' = some ip then 1 else 0)
    (others : ∀ slot, slot ≠ ip →
      (holding' = some slot ↔ holding = some slot)) :
    During start (state.setInode ip inode) holding' := by
  refine during.setInode (during.unique.congr (inodeNum_setInode sameNum)) ref
    others (lock.trans (during.locks ip)) (fun referenced => ?_)
    (fun _ free valid => ?_) fun number numberUsed => ?_
  · rw [sameNum, during.numbers ip referenced]
  · rw [if_pos valid] at sameData
    rw [sameNum, sameData]
    exact (during.dinodeAt_uses used free).trans
      (during.locked_uses used).symm
  · rw [dinodeOf_setInode_same during.unique used sameNum sameData]
    exact during.uses number numberUsed

/-- A reference to a cached inode. -/
theorem take
    (during : During start state none)
    (used : (state.icache ip).inodeNum ≠ inodeNumUnused) :
    During start (state.setInode ip ((state.icache ip).setRef
      ((state.icache ip).ref + 1))) (some ip) := by
  refine during.setSame used rfl rfl rfl ?_ fun slot differs => ?_
  · rw [Inode.setRef_ref, during.refs ip, if_pos rfl, if_neg nofun,
      UInt32.add_zero]
  · exact ⟨fun same => absurd (Option.some.inj same).symm differs, nofun⟩

/-- A free slot for another inode. -/
theorem takeOver
    (during : During start state none)
    (absent : ∀ slot, (state.icache slot).inodeNum ≠ inodeNum)
    (free : (state.icache ip).ref = 0) :
    During start (state.takeOver ip inodeNum) (some ip) := by
  have freeStart : (start.icache ip).ref = 0 := by
    have refs := during.refs ip
    rwa [if_neg nofun, UInt32.add_zero, free, eq_comm] at refs
  refine during.setInode (during.unique.takeOver absent) ?_
    (fun slot differs => ?_) (during.locks ip)
    (fun referenced => absurd freeStart referenced) (fun _ _ => nofun)
    fun number numberUsed => ?_
  · rw [freeStart, if_pos rfl]
    rfl
  · exact ⟨fun same => absurd (Option.some.inj same).symm differs, nofun⟩
  · rcases dinodeOf_takeOver ip during.unique absent numberUsed with
      same | ⟨rfl, stored⟩
    · exact same ▸ during.uses number numberUsed
    · refine SameUse.trans ?_ (during.dinodeAt_uses numberUsed freeStart)
      rw [← during.dinodeAt]
      exact stored ▸ SameUse.refl _ _

/-- An inode that is available is taken. -/
theorem alloc
    (during : During start state none) (used : inodeNum ≠ inodeNumUnused)
    (available : start.Available inodeNum) :
    ∃ ip taken, (inodeAlloc inodeNum).Runs state ip taken ∧
      During start taken (some ip) ∧ (taken.icache ip).inodeNum = inodeNum := by
  have returns : ∃ ip taken, (inodeAlloc inodeNum).Runs state ip taken := by
    by_contra stuck
    obtain ⟨absent, full⟩ := (inodeAlloc_panics_iff during.cacheIdle).mp
      (Program.panics_iff.mpr stuck)
    rcases available with referenced | ⟨slot, free⟩
    · obtain ⟨slot, number, _⟩ := during.slot_of_referenced referenced
      exact absent slot number
    · refine full slot ?_
      rw [during.refs slot, free, if_neg nofun]
      rfl
  obtain ⟨ip, taken, run⟩ := returns
  refine ⟨ip, taken, run, ?_⟩
  rcases inodeAlloc_runs run with ⟨rfl, rfl⟩ | ⟨absent, free, rfl⟩
  · refine ⟨during.take used, ?_⟩
    rw [State.setInode_icache, Function.update_self]
    rfl
  · refine ⟨during.takeOver absent free, ?_⟩
    rw [State.setInode_icache, Function.update_self]

end During

/-! ## Trails -/

/-- The first slot without references is taken over. -/
theorem inodeAlloc_first
    {final : State} {other : Slot}
    (run : (inodeAlloc inodeNum).Runs state ip final)
    (absent : ∀ slot, (state.icache slot).inodeNum ≠ inodeNum)
    (free : (state.icache other).ref = 0) : ip ≤ other := by
  simp only [inodeAlloc, Program.runs_bind, Program.runs_get] at run
  obtain ⟨_, _, acquire, _, _, ⟨rfl, rfl⟩, rest⟩ := run
  obtain ⟨_, rfl⟩ := acquireIcache_runs acquire
  split at rest
  · next cached found =>
    exact absurd (by simpa using List.find?_some found) (absent cached)
  · split at rest
    · next first found =>
      simp only [Program.runs_bind, runs_modifyInode,
        Program.runs_pure] at rest
      obtain ⟨_, _, rfl, _, _, release, rfl, rfl⟩ := rest
      obtain ⟨_, index, inside, isFirst, before⟩ :=
        List.find?_eq_some_iff_getElem.mp found
      rw [List.getElem_finRange] at isFirst
      by_contra later
      have below : other.val < index := by
        rw [← isFirst] at later
        exact Nat.lt_of_not_le later
      have missed := before other.val below
      rw [List.getElem_finRange] at missed
      exact absurd free (by simpa using missed)
    · exact absurd rest Program.runs_panic

/-- The first slot without references. -/
def State.IsFirstFree (state : State) (ip : Slot) : Prop :=
  (state.icache ip).ref = 0 ∧ ∀ other, (state.icache other).ref = 0 → ip ≤ other

theorem State.IsFirstFree.unique
    {first second : Slot} (isFirst : state.IsFirstFree first)
    (isSecond : state.IsFirstFree second) : first = second :=
  le_antisymm (isFirst.2 second isSecond.1) (isSecond.2 first isFirst.1)

/-- What a walk leaves in the slots without references: the first one is taken
over, those of visited inodes are filled, the others are as they were.  A
visited inode is cached unless a later one took its slot over. -/
structure Trail (start : State) (visited : List UInt16) (state : State)
    (holding : Option Slot) : Prop where
  kept : ∀ slot, (start.icache slot).ref = 0 → holding ≠ some slot →
    (state.icache slot).inodeNum ∉ visited →
    (state.icache slot).inodeNum = (start.icache slot).inodeNum ∧
      (state.icache slot).data = (start.icache slot).data
  filled : ∀ slot, (start.icache slot).ref = 0 → holding ≠ some slot →
    (state.icache slot).inodeNum ∈ visited → (state.icache slot).data.nlink ≠ 0
  first : ∀ slot,
    (state.icache slot).inodeNum ≠ (start.icache slot).inodeNum →
    start.IsFirstFree slot
  cached : ∀ number ∈ visited, (∃ slot, (state.icache slot).inodeNum = number) ∨
    ∃ slot, start.IsFirstFree slot ∧
      ((state.icache slot).inodeNum ∈ visited ∨ holding = some slot)

theorem Trail.fresh (state : State) : Trail state [] state none :=
  ⟨fun _ _ _ _ => ⟨rfl, rfl⟩, fun _ _ _ => nofun,
    fun _ differs => absurd rfl differs, nofun⟩

namespace Trail

variable {visited : List UInt16}

theorem setHeld
    {inode : Inode} (trail : Trail start visited state (some ip))
    (sameNum : inode.inodeNum = (state.icache ip).inodeNum) :
    Trail start visited (state.setInode ip inode) (some ip) := by
  have others : ∀ slot, some ip ≠ some slot →
      (state.setInode ip inode).icache slot = state.icache slot :=
    fun slot differs => Function.update_of_ne
      (fun same => differs (congrArg some same.symm)) _ _
  refine ⟨fun slot free other => ?_, fun slot free other => ?_,
    fun slot differs => ?_, fun number isVisited => ?_⟩
  · rw [others slot other]
    exact trail.kept slot free other
  · rw [others slot other]
    exact trail.filled slot free other
  · rw [inodeNum_setInode sameNum] at differs
    exact trail.first slot differs
  · simp only [inodeNum_setInode sameNum]
    exact trail.cached number isVisited

/-- A visited inode is given back. -/
theorem free
    {inode : Inode} (trail : Trail start visited state (some ip))
    (unique : UniqueSlots state)
    (used : (state.icache ip).inodeNum ≠ inodeNumUnused)
    (sameNum : inode.inodeNum = (state.icache ip).inodeNum)
    (linked : (start.icache ip).ref = 0 → inode.data.nlink ≠ 0) :
    Trail start ((state.icache ip).inodeNum :: visited)
      (state.setInode ip inode) none := by
  refine ⟨fun slot free _ unvisited => ?_, fun slot free _ isVisited => ?_,
    fun slot differs => ?_, fun number isVisited => ?_⟩
  · rw [inodeNum_setInode sameNum, List.mem_cons, not_or] at unvisited
    have differs : slot ≠ ip := fun same => unvisited.1 (by rw [same])
    rw [State.setInode_icache, Function.update_of_ne differs]
    exact trail.kept slot free
      (fun same => differs (Option.some.inj same).symm) unvisited.2
  · rw [inodeNum_setInode sameNum] at isVisited
    by_cases here : slot = ip
    · rw [here] at free ⊢
      rw [State.setInode_icache, Function.update_self]
      exact linked free
    · have other : (state.icache slot).inodeNum ≠
          (state.icache ip).inodeNum := fun same =>
        here (unique slot ip (by rw [same]; exact used) same)
      rw [State.setInode_icache, Function.update_of_ne here]
      exact trail.filled slot free
        (fun same => here (Option.some.inj same).symm)
        ((List.mem_cons.mp isVisited).resolve_left other)
  · rw [inodeNum_setInode sameNum] at differs
    exact trail.first slot differs
  · simp only [inodeNum_setInode sameNum]
    rcases List.mem_cons.mp isVisited with rfl | older
    · exact Or.inl ⟨ip, rfl⟩
    · rcases trail.cached number older with cached | ⟨slot, isFirst, gone | same⟩
      · exact Or.inl cached
      · exact Or.inr ⟨slot, isFirst, Or.inl (List.mem_cons_of_mem _ gone)⟩
      · obtain rfl := Option.some.inj same
        exact Or.inr ⟨ip, isFirst, Or.inl List.mem_cons_self⟩

/-- An inode is taken. -/
theorem alloc
    {final : State} (trail : Trail start visited state none)
    (during : During start state none)
    (run : (inodeAlloc inodeNum).Runs state ip final) :
    Trail start visited final (some ip) := by
  have slots : ∀ slot, slot ≠ ip → final.icache slot = state.icache slot := by
    intro slot differs
    rcases inodeAlloc_runs run with ⟨_, rfl⟩ | ⟨_, _, rfl⟩
    · exact Function.update_of_ne differs _ _
    · exact Function.update_of_ne differs _ _
  have others : ∀ slot, some ip ≠ some slot →
      final.icache slot = state.icache slot :=
    fun slot differs => slots slot fun same => differs (congrArg some same.symm)
  have takesFirst : (∀ slot, (state.icache slot).inodeNum ≠ inodeNum) →
      start.IsFirstFree ip := by
    intro absent
    rcases inodeAlloc_runs run with ⟨is, _⟩ | ⟨_, free, _⟩
    · exact absurd is (absent ip)
    · have refs := during.refs
      simp only [reduceCtorEq, if_false, UInt32.add_zero] at refs
      refine ⟨(refs ip).symm.trans free, fun other isFree => ?_⟩
      exact inodeAlloc_first run absent ((refs other).trans isFree)
  refine ⟨fun slot free other => ?_, fun slot free other => ?_,
    fun slot differs => ?_, fun number isVisited => ?_⟩
  · rw [others slot other]
    exact trail.kept slot free nofun
  · rw [others slot other]
    exact trail.filled slot free nofun
  · by_cases here : slot = ip
    · rw [here] at differs ⊢
      rcases inodeAlloc_runs run with ⟨_, same⟩ | ⟨absent, _, _⟩
      · rw [same, State.setInode_icache, Function.update_self] at differs
        exact trail.first ip differs
      · exact takesFirst absent
    · rw [slots slot here] at differs
      exact trail.first slot differs
  · rcases inodeAlloc_runs run with ⟨_, same⟩ | ⟨absent, _, _⟩
    · have numbers : ∀ slot, (final.icache slot).inodeNum =
          (state.icache slot).inodeNum := by
        rw [same]
        exact inodeNum_setInode rfl
      simp only [numbers]
      rcases trail.cached number isVisited with
        cached | ⟨slot, isFirst, gone | absurd⟩
      · exact Or.inl cached
      · exact Or.inr ⟨slot, isFirst, Or.inl gone⟩
      · cases absurd
    · exact Or.inr ⟨ip, takesFirst absent, Or.inr rfl⟩

end Trail

/-! ## Visiting an inode -/

/-- The state after a slot was locked and unlocked. -/
def State.fill (state : State) (ip : Slot) : State :=
  state.setInode ip ((state.locked ip).setSlk false)

/-- The state after a reference to a slot was given back. -/
def State.drop (state : State) (ip : Slot) : State :=
  state.setInode ip ((state.icache ip).setRef ((state.icache ip).ref - 1))

theorem fill_inodeNum :
    ((state.fill ip).icache ip).inodeNum = (state.icache ip).inodeNum := by
  unfold State.fill
  rw [State.setInode_icache, Function.update_self]
  rfl

theorem fill_data :
    ((state.fill ip).icache ip).data = (state.locked ip).data := by
  unfold State.fill
  rw [State.setInode_icache, Function.update_self]
  rfl

theorem fill_unlock :
    (inodeUnlock ip).Runs (state.setInode ip (state.locked ip)) ()
      (state.fill ip) := by
  have isLocked :
      ((state.setInode ip (state.locked ip)).icache ip).slk = true := by
    rw [State.setInode_icache, Function.update_self]
    rfl
  have run := inodeUnlock_total isLocked
  rw [State.setInode_icache, Function.update_self, State.setInode_setInode]
    at run
  exact run

namespace During

section Visit

variable (during : During start state (some ip))
  (used : (state.icache ip).inodeNum ≠ inodeNumUnused)
  (unlocked : (start.icache ip).slk = false)

include during unlocked

theorem lock (countable : (start.icache ip).ref + 1 ≠ 0) :
    (inodeLock ip).Runs state () (state.setInode ip (state.locked ip)) := by
  refine inodeLock_total ?_ ((during.locks ip).trans unlocked) ?_ ?_
  · rw [during.refs ip, if_pos rfl]
    exact countable
  · rw [during.idle]
    exact List.not_mem_nil
  · rw [during.idle]
    decide

include used

theorem filled : During start (state.fill ip) (some ip) := by
  refine during.setSame used rfl (if_pos rfl) ?_ (during.refs ip)
    fun _ _ => Iff.rfl
  rw [during.locks ip, unlocked]
  rfl

omit unlocked in
/-- An inode that stays can be given back after it was visited. -/
theorem free
    (kept : (start.icache ip).ref = 0 → (state.icache ip).data.nlink ≠ 0) :
    (inodeFree ip).Runs state () (state.drop ip) ∧
      During start (state.drop ip) none := by
  have ref : (state.icache ip).ref - 1 = (start.icache ip).ref := by
    rw [during.refs ip, if_pos rfl, UInt32.add_sub_cancel]
  refine ⟨inodeFree_total during.cacheIdle fun zero =>
    kept (ref.symm.trans zero), ?_⟩
  refine during.setSame used rfl rfl rfl ?_ fun slot differs => ?_
  · rw [Inode.setRef_ref, ref, if_neg nofun, UInt32.add_zero]
  · exact ⟨nofun, fun same => absurd (Option.some.inj same).symm differs⟩

omit unlocked in
/-- An inode that stays is not deleted once it was visited. -/
theorem stays_kept
    (stays : start.Stays (state.icache ip).inodeNum)
    (free : (start.icache ip).ref = 0) :
    (state.locked ip).data.nlink ≠ 0 := by
  rcases stays with ⟨slot, number, referenced⟩ | linked
  · have same := during.unique ip slot used
      (number.symm.trans (during.numbers slot referenced).symm)
    rw [← same] at referenced
    exact absurd free referenced
  · rw [(during.locked_uses used).nlink]
    exact linked

/-- Giving an inode back that was visited. -/
theorem unlockFree (stays : start.Stays (state.icache ip).inodeNum) :
    (inodeFree ip).Runs (state.fill ip) () ((state.fill ip).drop ip) ∧
      (inodeUnlockFree ip).Runs (state.setInode ip (state.locked ip)) ()
        ((state.fill ip).drop ip) ∧
      During start ((state.fill ip).drop ip) none := by
  have filled := during.filled used unlocked
  obtain ⟨free, during'⟩ := filled.free
    (by rw [fill_inodeNum]; exact used) fun zero => by
      rw [fill_data]
      exact during.stays_kept used stays zero
  exact ⟨free, Program.runs_bind.mpr ⟨(), _, fill_unlock, free⟩, during'⟩

/-- The trail of an inode that was visited and given back. -/
theorem trail_visited
    {visited : List UInt16} (stays : start.Stays (state.icache ip).inodeNum)
    (trail : Trail start visited state (some ip)) :
    Trail start ((state.icache ip).inodeNum :: visited)
      ((state.fill ip).drop ip) none := by
  have filled : Trail start visited (state.fill ip) (some ip) :=
    trail.setHeld rfl
  have unique := (during.filled used unlocked).unique
  have linked : (start.icache ip).ref = 0 →
      (((state.fill ip).icache ip).setRef
        (((state.fill ip).icache ip).ref - 1)).data.nlink ≠ 0 := fun zero => by
    rw [Inode.setRef_data, fill_data]
    exact during.stays_kept used stays zero
  have dropped : Trail start (((state.fill ip).icache ip).inodeNum :: visited)
      ((state.fill ip).drop ip) none :=
    filled.free unique (by rw [fill_inodeNum]; exact used) rfl linked
  rwa [fill_inodeNum] at dropped

omit unlocked in
/-- Searching a directory that is locked. -/
theorem search
    (settled : Settled start) (named : start.Named (state.icache ip).inodeNum)
    (isDir : (state.locked ip).data.type = ftDir) (name : CString) :
    ∃ child, (dirSearchEntry ip name).Runs
        (state.setInode ip (state.locked ip)) child
        (state.setInode ip (state.locked ip)) ∧
      start.childOf (state.icache ip).inodeNum name =
        if child = inodeNumUnused then none else some child := by
  have uses := during.locked_uses used
  have type : (start.dinodeOf (state.icache ip).inodeNum).type = ftDir :=
    uses.type.symm.trans isDir
  have self : (state.setInode ip (state.locked ip)).icache ip =
      state.locked ip := Function.update_self _ _ _
  have ready : DirReady ip (state.setInode ip (state.locked ip)) := by
    refine ⟨?_, ?_, ?_, ?_, ?_⟩
    · rw [self]
      rfl
    · rw [self]
      exact isDir
    · rw [self, uses.block type
        (named.imp_right And.right)]
      exact settled.inside _ named type
    · change _ ∉ state.held
      rw [during.idle]
      exact List.not_mem_nil
    · change state.held.length < _
      rw [during.idle]
      decide
  refine ⟨_, ready.search name, ?_⟩
  have block : (state.setInode ip (state.locked ip)).dirData ip = start.disk
      (diskIndex ((start.dinodeOf (state.icache ip).inodeNum).addrs 0)) := by
    unfold State.dirData
    rw [self, uses.block type (named.imp_right And.right), ← during.disk]
    rfl
  unfold State.childOf
  rw [if_neg (not_not.mpr type), block]

end Visit

/-- The slot that a lookup holds is not locked if no slot of its inode is. -/
theorem slot_unlocked
    (settled : Settled start) (during : During start state holding)
    (unlocked : start.InodeUnlocked (state.icache ip).inodeNum) :
    (start.icache ip).slk = false := by
  by_cases free : (start.icache ip).ref = 0
  · exact Bool.eq_false_iff.mpr fun locked => settled.locked ip locked free
  · exact unlocked ip (during.numbers ip free).symm

end During

/-! ## Walks -/

/-- What a walk arrives at: where the path leads, with a reference to it if it
leads somewhere, after it visited the inodes on the way. -/
structure Arrives (start final : State) (findParent : Bool)
    (inodeNum : UInt16) (elements : List CString) (visited : List UInt16)
    (result : Option (Slot × CString)) : Prop where
  during : During start final (result.map Prod.fst)
  target : result.map (fun found =>
    ((final.icache found.1).inodeNum, found.2)) =
      start.target findParent inodeNum elements
  trail : ∃ left, Trail start left final (result.map Prod.fst) ∧
    (∀ number ∈ visited, number ∈ left) ∧
    ∀ number ∈ start.visits findParent inodeNum elements, number ∈ left ∨
      ∃ found ∈ result, (final.icache found.1).inodeNum = number

/-- A walk returns if no inode on its way is locked and a slot for each can be
found. -/
theorem searchLoop_returns
    {findParent : Bool} {elements : List CString} {visited : List UInt16}
    (settled : Settled start) (during : During start state (some ip))
    (trail : Trail start visited state (some ip))
    (used : (state.icache ip).inodeNum ≠ inodeNumUnused)
    (named : start.Named (state.icache ip).inodeNum)
    (ways : ∀ number ∈ start.visits findParent (state.icache ip).inodeNum
      elements, start.Available number ∧ start.InodeUnlocked number)
    (ends : findParent = true → elements = [] → (start.icache ip).ref = 0 →
      (state.icache ip).data.nlink ≠ 0) :
    ∃ result final, (searchLoop findParent ip elements).Runs state result
        final ∧
      Arrives start final findParent (state.icache ip).inodeNum elements
        visited result := by
  induction elements generalizing ip state visited with
  | nil =>
      cases findParent with
      | false =>
          refine ⟨some (ip, dot), state, Program.runs_pure.mpr ⟨rfl, rfl⟩,
            during, rfl, visited, trail, fun _ member => member,
            fun number member => Or.inr ⟨_, rfl, ?_⟩⟩
          exact (List.mem_singleton.mp member).symm
      | true =>
          obtain ⟨free, during'⟩ := during.free used (ends rfl rfl)
          refine ⟨none, _, ?_, during', rfl, _, trail.free during.unique used
            rfl (ends rfl rfl), fun _ => List.mem_cons_of_mem _,
            fun number member => Or.inl ?_⟩
          · rw [searchLoop, if_pos rfl, free.bind_iff]
            exact Program.runs_pure.mpr ⟨rfl, rfl⟩
          · rw [List.mem_singleton.mp member]
            exact List.mem_cons_self
  | cons name rest inductionHypothesis =>
      have unlocked : (start.icache ip).slk = false :=
        during.slot_unlocked settled (ways _ List.mem_cons_self).2
      have lock := during.lock unlocked (settled.countable ip)
      have self : (state.setInode ip (state.locked ip)).icache ip =
          state.locked ip := Function.update_self _ _ _
      have type := (during.locked_uses used).type
      have stays := settled.stays named
      obtain ⟨free, unlockFree, during'⟩ :=
        during.unlockFree used unlocked stays
      have filled := during.filled used unlocked
      have trail' := during.trail_visited used unlocked stays trail
      -- An exit without a result has visited one inode only.
      have gone : ∀ number, number = (state.icache ip).inodeNum →
          number ∈ (state.icache ip).inodeNum :: visited := by
        rintro number rfl
        exact List.mem_cons_self
      by_cases isDir : (state.locked ip).data.type = ftDir
      · have isDir' := isDir
        rw [type] at isDir'
        by_cases last : findParent = true ∧ rest = []
        · refine ⟨some (ip, name), _, ?_, filled, ?_, visited,
            trail.setHeld rfl, fun _ member => member, fun number member =>
              Or.inr ⟨_, rfl, ?_⟩⟩
          · rw [searchLoop, lock.bind_iff,
              (runs_getInode.mpr ⟨self, rfl⟩).bind_iff,
              if_neg (not_not.mpr isDir), if_pos last, fill_unlock.bind_iff]
            exact Program.runs_pure.mpr ⟨rfl, rfl⟩
          · rw [State.target, if_neg (not_not.mpr isDir'), if_pos last,
              ← fill_inodeNum]
            rfl
          · rw [State.visits, if_neg (not_not.mpr isDir'), if_pos last]
              at member
            rw [fill_inodeNum, List.mem_singleton.mp member]
        · obtain ⟨number, search, leads⟩ :=
            during.search used settled named isDir name
          by_cases missing : number = inodeNumUnused
          · rw [if_pos missing] at leads
            refine ⟨none, _, ?_, during', ?_, _, trail',
              fun _ => List.mem_cons_of_mem _, fun number member =>
                Or.inl (gone number ?_)⟩
            · rw [searchLoop, lock.bind_iff,
                (runs_getInode.mpr ⟨self, rfl⟩).bind_iff,
                if_neg (not_not.mpr isDir), if_neg last, search.bind_iff,
                if_pos missing, unlockFree.bind_iff]
              exact Program.runs_pure.mpr ⟨rfl, rfl⟩
            · rw [State.target, if_neg (not_not.mpr isDir'), if_neg last,
                leads]
              rfl
            · rw [State.visits, if_neg (not_not.mpr isDir'), if_neg last,
                leads] at member
              exact List.mem_singleton.mp member
          · rw [if_neg missing] at leads
            have visits : start.visits findParent (state.icache ip).inodeNum
                (name :: rest) = (state.icache ip).inodeNum ::
                  start.visits findParent number rest := by
              rw [State.visits, if_neg (not_not.mpr isDir'), if_neg last,
                leads]
            rw [visits] at ways
            have within : ∀ visited ∈ start.visits findParent number rest,
                start.Available visited ∧ start.InodeUnlocked visited :=
              fun visited member => ways visited (List.mem_cons_of_mem _ member)
            have available : start.Available number := by
              refine (within number ?_).1
              cases rest <;> exact List.mem_cons_self
            obtain ⟨next, taken, alloc, held, same⟩ :=
              during'.alloc missing available
            have linked := settled.linked _ name number named leads
            obtain ⟨result, final, walk, arrives⟩ := inductionHypothesis
              held (trail'.alloc during' alloc)
              (by rw [same]; exact missing)
              (by rw [same]; exact Or.inr linked) (by rw [same]; exact within)
              fun parent empty => absurd ⟨parent, empty⟩ last
            rw [same] at arrives
            obtain ⟨left, trailed, older, newer⟩ := arrives.trail
            refine ⟨result, final, ?_, arrives.during, ?_, left, trailed,
              fun number member => older number (List.mem_cons_of_mem _ member),
              fun number member => ?_⟩
            · rw [searchLoop, lock.bind_iff,
                (runs_getInode.mpr ⟨self, rfl⟩).bind_iff,
                if_neg (not_not.mpr isDir), if_neg last, search.bind_iff,
                if_neg missing, fill_unlock.bind_iff, free.bind_iff,
                alloc.bind_iff]
              exact walk
            · rw [arrives.target, State.target, if_neg (not_not.mpr isDir'),
                if_neg last, leads]
            · rw [visits] at member
              rcases List.mem_cons.mp member with here | later
              · exact Or.inl (older number (gone number here))
              · exact newer number later
      · have notDir := isDir
        rw [type] at notDir
        refine ⟨none, _, ?_, during', ?_, _, trail',
          fun _ => List.mem_cons_of_mem _, fun number member =>
            Or.inl (gone number ?_)⟩
        · rw [searchLoop, lock.bind_iff,
            (runs_getInode.mpr ⟨self, rfl⟩).bind_iff, if_pos isDir,
            unlockFree.bind_iff]
          exact Program.runs_pure.mpr ⟨rfl, rfl⟩
        · rw [State.target, if_pos notDir]
          rfl
        · rw [State.visits, if_pos notDir] at member
          exact List.mem_singleton.mp member

end Fs
end WhuOs
